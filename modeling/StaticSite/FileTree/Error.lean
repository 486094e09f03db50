import StaticSite.Text

/-!
# Errors of file operations

The operating system reports a failed operation by a number.
-/
namespace StaticSite

inductive FileError where
  | system (number : Nat)
  /-- The content of a file is not the UTF-8 form of any text. -/
  | notText
deriving DecidableEq

namespace FileError

def notFound : FileError := .system 2
def alreadyExists : FileError := .system 17
def notDirectory : FileError := .system 20
def isDirectory : FileError := .system 21
def invalid : FileError := .system 22
def notEmpty : FileError := .system 39
def linkLoop : FileError := .system 40

/-- What the system calls its errors. -/
def systemNames : List (Nat × String) :=
  [(1, "Operation not permitted"), (2, "No such file or directory"), (3, "No such process"),
   (4, "Interrupted system call"), (5, "Input/output error"), (6, "No such device or address"),
   (7, "Argument list too long"), (8, "Exec format error"), (9, "Bad file descriptor"),
   (10, "No child processes"), (11, "Resource temporarily unavailable"), (12, "Cannot allocate memory"),
   (13, "Permission denied"), (14, "Bad address"), (15, "Block device required"),
   (16, "Device or resource busy"), (17, "File exists"), (18, "Invalid cross-device link"),
   (19, "No such device"), (20, "Not a directory"), (21, "Is a directory"), (22, "Invalid argument"),
   (23, "Too many open files in system"), (24, "Too many open files"),
   (25, "Inappropriate ioctl for device"), (26, "Text file busy"), (27, "File too large"),
   (28, "No space left on device"), (29, "Illegal seek"), (30, "Read-only file system"),
   (31, "Too many links"), (32, "Broken pipe"), (33, "Numerical argument out of domain"),
   (34, "Numerical result out of range"), (35, "Resource deadlock avoided"), (36, "File name too long"),
   (37, "No locks available"), (38, "Function not implemented"), (39, "Directory not empty"),
   (40, "Too many levels of symbolic links"), (104, "Connection reset by peer"),
   (110, "Connection timed out"), (111, "Connection refused"), (122, "Disk quota exceeded")]

/-- The name of a system error; a number without a name is named by itself. -/
def systemName (number : Nat) : Text :=
  match systemNames.lookup number with
  | some name => name.toList
  | none => if number = 0 then "Success" else "Unknown error " ++ Text.ofNat number

def message : FileError → Text
  | system number => systemName number ++ " (os error " ++ Text.ofNat number ++ ")"
  | notText => "stream did not contain valid UTF-8"

end FileError

end StaticSite
