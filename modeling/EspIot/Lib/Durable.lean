/-
# `EspIot.Lib.Durable` — a value in memory and what a restart finds of it

A register has a volatile value, which its user reads and sets, and a durable one.

    set v      the volatile value is `v`
    save       the durable value is the volatile one
    tear       a save is cut short: there is no durable value
    restart    the volatile value is the durable one, or the default

`Settled` is what a restart does not change.
-/
import Mathlib.Data.List.Basic

namespace EspIot.Lib

/-- A value in memory, with what is kept of it elsewhere. -/
structure DurableRegister (V : Type*) where
  volatile : V
  durable : Option V

inductive DurableOp (V : Type*)
  | set (v : V)
  | save
  | tear
  | restart
deriving DecidableEq

namespace DurableRegister

variable {V : Type*} (default : V)

def step (r : DurableRegister V) : DurableOp V → DurableRegister V
  | .set v => { r with volatile := v }
  | .save => { r with durable := some r.volatile }
  | .tear => { r with durable := none }
  | .restart => { r with volatile := r.durable.getD default }

/-- A restart gives the value that is there. -/
def Settled (r : DurableRegister V) : Prop := r.durable.getD default = r.volatile

variable {default} {r : DurableRegister V}

theorem settled_save : Settled default (r.step default .save) := rfl

theorem settled_restart : Settled default (r.step default .restart) := rfl

theorem Settled.foldl {ops : List (DurableOp V)} (h : Settled default r)
    (hops : ∀ op ∈ ops, op = .save ∨ op = .restart) :
    Settled default (ops.foldl (step default) r) := by
  induction ops generalizing r with
  | nil => exact h
  | cons op ops ih =>
      refine ih ?_ fun op' h' => hops op' (List.mem_cons_of_mem _ h')
      rcases hops op List.mem_cons_self with rfl | rfl
      · exact settled_save
      · exact settled_restart

end DurableRegister

end EspIot.Lib
