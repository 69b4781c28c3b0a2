import ResourceAccessors.Path
import ResourceAccessors.Text.Quoted

/-! What can go wrong when a path is looked up, read or written, with its number and wording. -/
namespace ResourceAccessors
set_option autoImplicit false

inductive Obstacle where
  | notFound
  | taken
  | notDirectory
  | isDirectory
  | nameTooLong
  | tooManyLinks
  deriving DecidableEq

namespace Obstacle

def number : Obstacle → Nat
  | notFound => 2
  | taken => 17
  | notDirectory => 20
  | isDirectory => 21
  | nameTooLong => 36
  | tooManyLinks => 40

def text : Obstacle → String
  | notFound => "No such file or directory"
  | taken => "File exists"
  | notDirectory => "Not a directory"
  | isDirectory => "Is a directory"
  | nameTooLong => "File name too long"
  | tooManyLinks => "Too many levels of symbolic links"

/-- The obstacles that mean that the path leads to nothing, as opposed to those that leave open
what it leads to. -/
def meansAbsent : Obstacle → Bool
  | notFound | notDirectory | tooManyLinks => true
  | taken | isDirectory | nameTooLong => false

end Obstacle

/-- A path that holds a NUL character is refused before it is looked up. A tree that has more levels
than calls may wait for one another is given up whatever is in it. -/
inductive FileFault where
  | obstructed (obstacle : Obstacle) (path : Path)
  | nulInPath
  | tooNested (reason : String)
  deriving DecidableEq

def FileFault.message : FileFault → String
  | .obstructed obstacle path =>
    let shown := Text.quoted path.toString
    s!"[Errno {obstacle.number}] {obstacle.text}: {shown}"
  | .nulInPath => "embedded null byte"
  | .tooNested reason => reason

end ResourceAccessors
