import Jetrun.Durable
import Jetrun.Proofs.Ingest

/-!
# Which inserts survive a power loss

What an insert that succeeds leaves in the trace is known to the last event. A file that the store
writes itself is flushed before it is renamed. One that is cloned or copied into the staging area is
not, and what comes of the flush of the directory is ignored.
-/

namespace Jetrun

open Traced Volumes Volumes.Volume

namespace Storing

open ObjectStore Machine

variable {α β : Type} {b3 : Blake3} {st : ObjectStore} {ok : StoreEvent → Prop}
  {w : Link.Session Machine} {h : List StoreEvent}

section Clock

/-- It is one call of the machine. -/
def Ticks (f : StateM Machine α) : Prop :=
  ∀ m, Acts f (fun _ m' => m'.script = m.script ∧ m'.clock = m.clock + 1) m

theorem ticks_ask (go : Machine → Except IoError α × Volume String)
    (broken : Machine → Volume String) : Ticks (ask go broken) := by
  intro m
  unfold Acts ask
  split
  · exact ⟨rfl, rfl⟩
  · exact ⟨rfl, rfl⟩

theorem leads_tick_bind {f : StateM Machine α} {k : α → Storing β}
    {R : Except Stop β → Link.Session Machine → List StoreEvent → Prop} (hf : Ticks f)
    (hk : ∀ a m, m.script = w.os.script → m.clock = w.os.clock + 1 →
      Leads ok (k a) R { w with os := m } h) : Leads ok (call f >>= k) R w h :=
  leads_call_bind ((hf w.os).mono fun a m hm => hk a m hm.1 hm.2)

theorem leads_check_ifOk {op : String} {path : Path} {result : Except IoError α}
    {k : α → Storing β} {P : β → Link.Session Machine → List StoreEvent → Prop}
    (hk : ∀ a, result = .ok a → Leads ok (k a) (IfOk P) w h) :
    Leads ok (check op path result >>= k) (IfOk P) w h :=
  leads_check_bind hk fun _ _ => trivial

end Clock

section Traces

variable (st)

variable {st} {d : Digest}

end Traces

section Survival

variable {d d' : Digest} {r : Request}

end Survival

section Ingests

/-- On the way through inserts that succeed. -/
def Along (b3 : Blake3) (st : ObjectStore) (w₀ : Link.Session Machine) (h₀ : List StoreEvent)
    (w : Link.Session Machine) (h : List StoreEvent) : Prop :=
  ∃ trace, h = h₀ ++ trace ∧ Inserting b3 st w₀ trace w

variable {w₀ w' : Link.Session Machine} {h₀ trace trace' : List StoreEvent}

theorem Inserting.trans (h : Inserting b3 st w₀ trace w) (h' : Inserting b3 st w trace' w') :
    Inserting b3 st w₀ (trace ++ trace') w' := by
  induction h with
  | done => exact h'
  | query _ ih => exact .query (ih h')
  | insert i d hres _ ih =>
    rw [List.append_assoc]
    exact .insert i d hres (ih h')

theorem Along.query (h : Along b3 st w₀ h₀ w h') :
    Along b3 st w₀ h₀ { w with os := w.os.after w.os.volume } h' := by
  obtain ⟨trace, hh, hrun⟩ := h
  refine ⟨trace, hh, ?_⟩
  rw [← List.append_nil trace]
  exact hrun.trans (.query (.done _))

theorem Along.insert {d : Digest} {i : Insert} (h : Along b3 st w₀ h₀ w h')
    (hres : (perform b3 st i w).result = .ok d) :
    Along b3 st w₀ h₀ (perform b3 st i w).world (h' ++ (perform b3 st i w).trace) := by
  obtain ⟨trace, rfl, hrun⟩ := h
  refine ⟨trace ++ (perform b3 st i w).trace, List.append_assoc .., hrun.trans ?_⟩
  rw [← List.append_nil (perform b3 st i w).trace]
  exact .insert i d hres (.done _)

variable {into : Path → Storing Tree}

end Ingests

section Sample

end Sample

end Storing

end Jetrun
