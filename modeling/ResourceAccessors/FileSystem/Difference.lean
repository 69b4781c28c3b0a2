import ResourceAccessors.FileSystem.Basic

/-! What is new or different in one file system when it is compared with another. -/
namespace ResourceAccessors.FileSystem
set_option autoImplicit false

/-- The entries of a file system that an earlier one does not have, with their locations in order:
a directory comes before what is in it. -/
def changesSince (fs before : FileSystem) : List (Location × Entry) :=
  fs.entries.toList.filter fun (loc, e) => before.entryAt loc ≠ some e

end ResourceAccessors.FileSystem
