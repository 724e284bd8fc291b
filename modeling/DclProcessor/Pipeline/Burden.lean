import Mathlib.Algebra.Order.BigOperators.Group.Finset
import DclProcessor.Library.Exchange
import DclProcessor.Pipeline.Progress

/-!
What the modules of a chain have left to do, for any weights of the places of their threads and
of the commands in their mailboxes. A step of a thread pays from its own module for what it puts
in the next mailbox, a step of a client from the job that it has.
-/

namespace DclProcessor.Pipeline

open Finset

/-- Steps that the client of a module can make by itself. -/
def clientRank (p : ProcInfo) (c : Client) : Nat :=
  3 * p.semJob + match c.pc with
    | .dispatch => 2
    | .postResult => 1
    | .waitJob | .left => 0

theorem client_decreases {r : Reply} {p q : ProcInfo} {c d : Client}
    (hs : clientStep r p c = some (q, d)) : clientRank q d < clientRank p c := by
  unfold clientStep at hs
  cases hp : c.pc <;> simp only [hp] at hs
  case waitJob =>
    split at hs <;> cases hs
    simp only [clientRank, hp]
    omega
  case dispatch =>
    cases hc : p.cmd <;> simp only [hc, Option.some.injEq, Prod.mk.injEq] at hs <;>
      obtain ⟨rfl, rfl⟩ := hs <;> simp [clientRank, hp]
  case postResult =>
    simp only [Option.some.injEq, Prod.mk.injEq] at hs
    obtain ⟨rfl, rfl⟩ := hs
    cases c.exitFlag <;> simp [clientRank, hp]
  case left => cases hs

/-- What a module has left, where its thread has `own` for its place and a command in its mailbox
weighs `load`. -/
def Module.burden (own : Pc → Nat) (load : Nat) (m : Module) : Nat :=
  own m.thread.pc + load * m.box.newCmd + clientRank m.proc m.client

/-- A command that is added to or taken from the mailbox of a module. -/
theorem Module.burden_box (own : Pc → Nat) (load : Nat) (m : Module) (b : Mailbox) :
    burden own load { m with box := b } + load * m.box.newCmd =
      m.burden own load + load * b.newCmd := by
  simp only [burden]
  omega

namespace Chain

variable {c : Chain} {own : Nat → Pc → Nat} {load : Nat → Nat} {s s' : Sys} {i : Nat}

/-- What all modules have left. -/
def burden (c : Chain) (own : Nat → Pc → Nat) (load : Nat → Nat) (s : Sys) : Nat :=
  ∑ i ∈ range c.cnt, (s.mods i).burden (own i) (load i)

theorem burden_thread {w : View} {d : Nat} (hlast : load c.cnt = 0) (hi : i < c.cnt)
    (hpaid : w.me.burden (own i) (load i) + load (i + 1) * w.next.newCmd + d ≤
      (s.mods i).burden (own i) (load i) + load (i + 1) * (s.mods (i + 1)).box.newCmd) :
    c.burden own load (s.putView i w) + d ≤ c.burden own load s := by
  refine Exchange.sum_range_pays hi (fun j hj hj' => by rw [s.putView_of_ne i w hj hj']) ?_ ?_
  · intro hcnt
    rw [← hcnt, hlast, Nat.zero_mul, Nat.zero_mul] at hpaid
    rw [Sys.putView_me]
    omega
  · intro hnext
    have hbox := Module.burden_box (own (i + 1)) (load (i + 1)) (s.mods (i + 1)) w.next
    simp only [Sys.putView_me, Sys.putView_next]
    omega

theorem burden_client {r : Reply} {p : ProcInfo} {cl : Client} (hi : i < c.cnt)
    (hs : clientStep r (s.mods i).proc (s.mods i).client = some (p, cl)) :
    c.burden own load (s.setMod i { s.mods i with proc := p, client := cl }) + 1 ≤
      c.burden own load s := by
  have hless := client_decreases hs
  refine Exchange.sum_range_pays hi (fun j hj _ => by simp [Sys.setMod, hj]) (fun _ => ?_)
    fun _ => ?_
  · simp only [Sys.setMod, Function.update_self, Module.burden]
    omega
  · have hne : i + 1 ≠ i := by omega
    simp only [Sys.setMod, Function.update_self, Function.update_of_ne hne, Module.burden]
    omega

theorem burden_sameWork (h : s.SameWork s') : c.burden own load s' = c.burden own load s := by
  refine sum_congr rfl fun j _ => ?_
  simp only [Module.burden, h.thread, h.box, h.proc, h.client]

end Chain

end DclProcessor.Pipeline
