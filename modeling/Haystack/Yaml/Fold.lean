import Haystack.Yaml.Spot

/-!
# Folding lines

A scalar may go on over several lines. Blanks next to a line break do not count. A line feed
alone stands for a blank and the line breaks after a line feed for themselves. A line break of
another kind always stands for itself, and one behind a backslash for nothing.
-/

namespace Haystack.Yaml

/-- What has been passed over since the last character of a scalar that counts. -/
inductive Gap where
  /-- Blanks within a line, in reverse. -/
  | blanks (passed : List Char)
  /-- A line break, which is none behind a backslash, and the line breaks after it, in reverse. -/
  | breaks (first : Option Char) (more : List Char)
  deriving DecidableEq, Repr

namespace Gap

/-- What a gap stands for, in reverse. -/
def text : Gap → List Char
  | blanks passed => passed
  | breaks (some '\n') [] => [' ']
  | breaks (some '\n') more => more
  | breaks first more => more ++ first.toList

def isNone : Gap → Bool
  | blanks passed => passed.isEmpty
  | breaks _ _ => false

def hasBreak : Gap → Bool
  | blanks _ => false
  | breaks _ _ => true

end Gap

/-- What has been read of a scalar. -/
structure Fold where
  /-- All up to the last character that counts, in reverse. -/
  done : List Char := []
  gap : Gap := .blanks []
  deriving DecidableEq, Repr

namespace Fold

/-- What has been read, without the gap at its end. -/
def text (fold : Fold) : List Char :=
  fold.done.reverse

/-- The same with the gap counted as read. -/
def close (fold : Fold) : Fold :=
  { done := fold.gap.text ++ fold.done }

def add (fold : Fold) (c : Char) : Fold :=
  { done := c :: fold.close.done }

/-- After a line break behind a backslash. -/
def join (fold : Fold) : Fold :=
  { fold.close with gap := .breaks none [] }

def blank (fold : Fold) (c : Char) : Fold :=
  match fold.gap with
  | .blanks passed => { fold with gap := .blanks (c :: passed) }
  | .breaks _ _ => fold

def newline (fold : Fold) (c : Char) : Fold :=
  match fold.gap with
  | .blanks _ => { fold with gap := .breaks (some c) [] }
  | .breaks first more => { fold with gap := .breaks first (c :: more) }

@[simp]
theorem text_close (fold : Fold) : fold.close.text = fold.text ++ fold.gap.text.reverse := by
  simp [close, text]

@[simp]
theorem text_add (fold : Fold) (c : Char) :
    (fold.add c).text = fold.text ++ fold.gap.text.reverse ++ [c] := by
  simp [add, close, text]

@[simp]
theorem text_blank (fold : Fold) (c : Char) : (fold.blank c).text = fold.text := by
  unfold blank
  split <;> rfl

@[simp]
theorem text_newline (fold : Fold) (c : Char) : (fold.newline c).text = fold.text := by
  unfold newline
  split <;> rfl

def next (fold : Fold) (c : Char) : Fold :=
  if isBreak c then fold.newline c else if isBlank c then fold.blank c else fold.add c

end Fold

end Haystack.Yaml
