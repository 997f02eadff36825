import Mathlib.Data.List.AList
import BotBrew.Opkg.Package

/-! `Packages` of `opkg.py` and the package loop of `opkg-make-index`. -/

set_option autoImplicit false

namespace BotBrew.Opkg

/-- The dictionary `packages` -/
abbrev Packages := AList fun _ : Text => Package

/-- `"%s:%s" % (package, arch)` -/
def pairName (package arch : Text) : Text := package ++ ':' :: arch

def Package.name (pkg : Package) : Text := str (pkg.dict "package".toList)

def Package.arch (pkg : Package) : Text := str (pkg.dict "architecture".toList)

def Package.key (pkg : Package) : Text := pairName pkg.name pkg.arch

/-- The dictionary after the call, and what it returns. -/
def Packages.add_package (packages : Packages) (pkg : Package) : Option (Packages × Nat) := do
  let packages := if pkg.key ∈ packages then packages else packages.insert pkg.key pkg
  let current ← packages.lookup pkg.key
  let r ← pkg.compare_version current
  if r ≥ 0 then some (packages.insert pkg.key pkg, 0) else some (packages, 1)

/-- The loop over the packages: the dictionary and what each call returned. -/
def Packages.addAll (packages : Packages) : List Package → Option (Packages × List Nat)
  | [] => some (packages, [])
  | pkg :: rest => do
      let (packages, s) ← packages.add_package pkg
      let (packages, statuses) ← packages.addAll rest
      some (packages, s :: statuses)

end BotBrew.Opkg
