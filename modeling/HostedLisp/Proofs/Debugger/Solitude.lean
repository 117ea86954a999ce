import HostedLisp.Proofs.Debugger.Stages
import HostedLisp.Proofs.Plan.Failing

/-!
# Runs without a user

Without a user no failure is offered, so nothing stands between an error and whoever asked for the
request that failed: `Machine.serve_relays`. Pauses may still be asked for by the host. The lines
that are obeyed then bring in no user and their errors are only shown, so that a pause before an
evaluation never fails: `Machine.hold_staysAlone`.
-/

namespace HostedLisp

open Debugger

variable {α β : Type}

/-- There is no user, but pauses may be asked for. -/
def Debugger.Controller.Alone (c : Controller) : Prop := c.interactive = false

/-- Requests are asked and answered without a user. -/
def solitude : Contract where
  may _ s := s.debugger.Alone
  gives _ _ _ t := t.debugger.Alone
  faults := True

/-- A run brings in no user and ends in no error. -/
def Run.StaysAlone (x : Run α) : Prop :=
  x.Leads solitude (fun s => s.debugger.Alone) (fun _ t => t.debugger.Alone) False

lemma chained_alone : Chained (fun s => s.debugger.Alone) fun _ t => t.debugger.Alone where
  refl _ hs := hs
  trans _ _ _ _ h := h
  fit _ _ _ h := h

namespace Run.StaysAlone

variable {x : Run α}

lemma pure (a : α) : (Pure.pure a : Run α).StaysAlone := Leads.pure chained_alone a

lemma view (f : State → α) : (Run.view f).StaysAlone := Leads.view chained_alone f

lemma bind {f : α → Run β} (hx : x.StaysAlone) (hf : ∀ a, (f a).StaysAlone) :
    (x >>= f).StaysAlone :=
  Leads.bind chained_alone hx hf

lemma changeHeap (f : Heap → Heap) : (Run.changeHeap f).StaysAlone := Leads.modify fun _ hs => hs

lemma changeDebugger {f : Controller → Controller}
    (hf : ∀ c, (f c).interactive = c.interactive) : (Run.changeDebugger f).StaysAlone :=
  Leads.modify fun s hs => (hf s.debugger).trans hs

lemma display (event : Event) : (Run.display event).StaysAlone := Leads.modify fun _ hs => hs

lemma record (event : Event) : (Run.record event).StaysAlone := Leads.modify fun _ hs => hs

lemma readLine : Run.readLine.StaysAlone := fun _ hs => ⟨hs, nofun⟩

lemma attempt_request (r : Request) : (Run.attempt (Run.request r)).StaysAlone :=
  Leads.attempt (Leads.request (fun _ hs => hs) fun _ _ _ h => h)

end Run.StaysAlone

namespace Machine

open Run

variable {leader : Char} {frame : FrameId}

lemma staysAlone_obedient : Run.Obedient Run.StaysAlone where
  pure := .pure
  bind := .bind
  view := .view
  output _ := .display _
  quit := .record .quit
  set which on := by cases which <;> exact .changeDebugger fun _ => rfl
  clearSteps := .changeDebugger fun _ => rfl
  singleStep := .changeDebugger fun _ => rfl
  stepOutOf _ := .changeDebugger fun _ => rfl
  evalLine source frame := by
    refine Run.evalLine_of (P := StaysAlone) .pure .bind .view (fun d => ?_)
      (fun _ => .changeDebugger fun _ => rfl) (fun _ => .attempt_request _) source
    exact Compositional.of_changeHeap (P := StaysAlone) .pure .bind .view .changeHeap _

lemma converse_staysAlone : (converse leader frame).StaysAlone := by
  refine StaysAlone.bind (.view _) fun _ => ?_
  split
  · exact StaysAlone.display _
  · refine StaysAlone.bind (.changeDebugger fun _ => rfl) fun _ => ?_
    refine StaysAlone.bind (.view _) fun _ => StaysAlone.bind (.display _) fun _ => ?_
    refine StaysAlone.bind (.view _) fun _ => StaysAlone.bind ?_ fun _ => ?_
    · exact staysAlone_obedient.converseFor (fun _ => .changeDebugger fun _ => rfl) .readLine _
    · exact StaysAlone.changeDebugger fun _ => rfl

/-- A pause before an evaluation makes no error. -/
lemma hold_staysAlone {expr : Value} : (hold leader expr frame).StaysAlone := by
  refine StaysAlone.bind (.view _) fun _ => ?_
  split
  · refine StaysAlone.bind (.changeDebugger fun _ => rfl) fun _ => ?_
    refine StaysAlone.bind (.view _) fun _ => StaysAlone.bind (.display _) fun _ => ?_
    refine StaysAlone.bind converse_staysAlone fun _ => ?_
    refine StaysAlone.bind (.view _) fun _ => ?_
    exact StaysAlone.bind (.changeDebugger fun _ => rfl) fun _ => StaysAlone.pure _
  · exact StaysAlone.pure none

lemma offer_of_alone {s : State} (e : Error) (hs : s.debugger.Alone) :
    offer leader e frame s = .stop (.error (.error e)) s := by
  have hinteractive : s.debugger.interactive = false := hs
  exact offer_of_not_breaks e (by simp [Controller.breaks, hinteractive])

/-- What is served without an evaluation of its own relays errors. -/
lemma serve_relays {m : Machine} {r : Request} (hne : ∀ expr frame, r ≠ .eval expr frame) :
    (m.serve r).Relays Controller.Alone := by
  intro s hs
  have hcompositional := relays_compositional Controller.Alone
  cases r with
  | eval expr frame => exact absurd rfl (hne expr frame)
  | apply func args frame => exact hcompositional.applyTo m func args frame s hs
  | call func operands frame => exact hcompositional.call m func operands frame s hs
  | pause frame =>
    have hinteractive : s.debugger.interactive = false := hs
    rw [serve, bind_apply]
    simp only [view, Plan.bind_stop_ok, hinteractive]
    exact hs
  | setting which change =>
    cases change with
    | none => exact hs
    | some on => cases which <;> exact hs
  | print | isPaused | depth => exact hs

end Machine

end HostedLisp
