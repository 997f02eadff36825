import BotBrew.FileSystem.Basic

/-! `bin/ldimport` of `botbrew-foundation.yml`: links in `/system/lib` to the libraries of the
prefix. -/

set_option autoImplicit false

namespace BotBrew.Ldimport

open FileSystem

def systemLib : Path := ["system".toList, "lib".toList]

/-- `%(PREFIX)s`, whose `lib` is not `/system/lib` or a directory in it. -/
structure Prefix where
  path : Path
  apart : ¬systemLib <+: path ++ ["lib".toList]

def Prefix.lib (base : Prefix) : Path := base.path ++ ["lib".toList]

def data (path : Path) : Path := "data".toList :: path

/-- The pattern `"%(PREFIX)s/lib/"*` -/
def Prefix.isLibrary (base : Prefix) (path : Path) : Bool := base.lib <+: path ∧ path ≠ base.lib

section

variable (base : Prefix) (limit : Nat)

def source (files : Files) : Option Path :=
  if exists? files limit base.lib then some base.lib
  else if exists? files limit (data base.lib) then some (data base.lib)
  else none

/-- The test on the entries of `/system/lib` -/
def isStale (files : Files) (item : Text) : Bool :=
  if exists? files limit (systemLib ++ [item]) then false
  else
    match readlink files limit (systemLib ++ [item]) with
    | some link => if base.isLibrary link then !exists? files limit (data link) else false
    | none => false

def checkStale (files : Files) (item : Text) : Files :=
  if isStale base limit files item then unlink files (systemLib ++ [item]) else files

/-- The target `%(PREFIX)s/lib/${item}` -/
def Prefix.target (base : Prefix) (item : Text) : Target := ⟨true, (base.lib ++ [item]).map .name⟩

def linkFresh (files : Files) (item : Text) : Files :=
  symlink files limit (base.target item) item (systemLib ++ [item])

/-- The script and its exit status. `listing` is what `*` lists in a directory. -/
def ldimport (listing : Path → List Text) (files : Files) : Files × Bool :=
  match source base limit files with
  | none => (files, false)
  | some directory =>
    ((expand (listing directory)).foldl (linkFresh base limit)
      ((expand (listing systemLib)).foldl (checkStale base limit) files), true)

end

end BotBrew.Ldimport
