import PageScript.Failure

/-!
# Faults

A fault makes accesses to slots fail before they reach the backing: accesses of one kind, to one
slot or to any, after letting some pass and for as many times as it is set to.  Faults are asked
in order, and the first that fires decides.
-/

namespace PageScript

inductive Access where
  | load
  | save
deriving DecidableEq

structure Fault where
  on : Access
  /-- The slot it is for; none means any. -/
  key : Option String
  /-- How many accesses it lets pass first. -/
  skip : Nat
  /-- How many accesses it makes fail; none means all. -/
  times : Option Nat
  failure : Failure

namespace Fault

def concerns (f : Fault) (access : Access) (key : String) : Bool :=
  f.on = access && f.key.all (· = key) && f.times != some 0

/-- Asks the faults about an access: the failure of the first that fires, and what is left of
them all. -/
def ask (access : Access) (key : String) : List Fault → Option Failure × List Fault
  | [] => (none, [])
  | f :: rest =>
    if !f.concerns access key then
      let (failure, rest) := ask access key rest
      (failure, f :: rest)
    else if 0 < f.skip then
      let (failure, rest) := ask access key rest
      (failure, { f with skip := f.skip - 1 } :: rest)
    else (some f.failure, { f with times := f.times.map (· - 1) } :: rest)

end Fault

end PageScript
