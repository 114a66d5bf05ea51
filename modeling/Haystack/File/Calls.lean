import Haystack.File.Basic

/-!
# Calls of a file

Whatever works on files does so by five calls. A read fills a buffer as far as there are bytes and
leaves the rest of it alone. To read exactly is to read and to count it as an error if the buffer
was not filled.
-/

namespace Haystack

namespace File

/-- A call of a file. To read is to give a buffer. -/
inductive Call where
  | write (data : Bytes) (offset : Nat)
  | read (buffer : Bytes) (offset : Nat)
  | readExact (buffer : Bytes) (offset : Nat)
  | truncate (length : Nat)
  | stat

/-- What a call gives back, with the buffer as it is then. -/
inductive Reply where
  | wrote (result : Except Error Nat)
  | read (count : Nat) (buffer : Bytes)
  | filled (result : Except Error Unit) (buffer : Bytes)
  | truncated (result : Except Error Unit)
  | length (result : Except Error Nat)

/-- A buffer into which bytes were read. -/
def filled (buffer bytes : Bytes) : Bytes :=
  bytes ++ buffer.drop bytes.length

def call (file : File) : Call → Reply × File
  | .write data offset =>
    let (result, file) := file.write data offset
    (.wrote result, file)
  | .read buffer offset =>
    let bytes := file.read buffer.length offset
    (.read bytes.length (filled buffer bytes), file)
  | .readExact buffer offset =>
    (.filled ((file.readExact buffer.length offset).map fun _ => ())
      (filled buffer (file.read buffer.length offset)), file)
  | .truncate length =>
    let (result, file) := file.truncate length
    (.truncated result, file)
  | .stat => (.length file.stat, file)

/-- Makes calls one after the other. -/
def run (file : File) : List Call → List Reply × File
  | [] => ([], file)
  | call :: rest =>
    let (reply, file) := file.call call
    let (replies, file) := file.run rest
    (reply :: replies, file)

end File

end Haystack
