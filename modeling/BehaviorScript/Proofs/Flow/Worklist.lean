import BehaviorScript.Proofs.Flow.Exploration
import Mathlib.Data.List.Nodup

/-!
# Worklists

`explore` hands each label on together with its node, and stops after as
many visits as there are nodes. The loop that it stands for has neither: a
table holds the label of every node that was arrived at, the queue holds
bare nodes, and the loop goes on until the queue is empty, while every turn
may put new nodes into it.

- One turn takes exactly one off the nodes that are without a label or in
  the queue (`pending_turn`), so the loop ends on every graph and from every
  state (`wellFounded_turn`).
- Table and queue hold what an exploration hands on (`Matches`): one arrival,
  all arrivals of a turn and one turn keep it so (`Matches.arrive`,
  `Matches.arriveAll`, `Matches.turn`). A node in the queue therefore has its
  label, and no node comes into the queue twice.
- Hence the loop pops what is explored, in this order, and the table it
  leaves behind is the list of visits (`drains_start`).
-/

namespace BehaviorScript

/-- What the loop holds between two turns. -/
structure Worklist (δ : Type) where
  /-- For each node the label of the first arrival at it. -/
  labels : List (Option δ)
  /-- The nodes that were arrived at and wait for their turn. -/
  queue : List Nat

namespace Worklist

variable {δ : Type}

/-- An arrival. The first one at a node labels the node and puts it into
the queue. -/
def arrive (w : Worklist δ) (arrival : Nat × δ) : Worklist δ :=
  match w.labels[arrival.1]? with
  | some none =>
    { labels := w.labels.set arrival.1 (some arrival.2), queue := w.queue ++ [arrival.1] }
  | _ => w

/-- The worklist of a graph with `count` nodes after the arrival at the
first one, if there is one. -/
def start (count : Nat) (label : δ) : Worklist δ :=
  arrive { labels := List.replicate count none, queue := [] } (0, label)

/-- One turn: the front of the queue, and the worklist after its visit. A
node without a label would be passed over. -/
def turn? (next : Nat → δ → List (Nat × δ)) (w : Worklist δ) : Option (Nat × Worklist δ) :=
  match w.queue with
  | [] => none
  | a :: queue =>
    match w.labels[a]? with
    | some (some d) => some (a, (next a d).foldl arrive { w with queue })
    | _ => some (a, { w with queue })

/-- Turns one after another, with the nodes that they pop. -/
inductive Run (next : Nat → δ → List (Nat × δ)) : Worklist δ → List Nat → Worklist δ → Prop
  | stop (w : Worklist δ) : Run next w [] w
  | turn {w w' w'' : Worklist δ} {a : Nat} {popped : List Nat} :
      turn? next w = some (a, w') → Run next w' popped w'' → Run next w (a :: popped) w''

/-- The loop ends, and in all it makes these visits. -/
structure Drains (next : Nat → δ → List (Nat × δ)) (w : Worklist δ) (visits : List (Nat × δ)) :
    Prop where
  /-- There is no endless sequence of turns. -/
  ends : Acc (fun after before => ∃ a, turn? next before = some (a, after)) w
  /-- When the visited nodes have been popped, in this order, the queue is
  empty and the table holds the labels of the visits. -/
  empties : ∃ w', Run next w (visits.map Prod.fst) w' ∧ w'.queue = []
    ∧ ∀ a d, w'.labels[a]? = some (some d) ↔ (a, d) ∈ visits
  /-- Whatever has been popped at any time is the front of them. -/
  front : ∀ {popped : List Nat} {w' : Worklist δ}, Run next w popped w' →
    popped <+: visits.map Prod.fst

variable {w : Worklist δ} {next : Nat → δ → List (Nat × δ)}

/-! ## Turns -/

theorem arrive_of_unlabelled {x : Nat × δ} (hx : w.labels[x.1]? = some none) :
    w.arrive x = { labels := w.labels.set x.1 (some x.2), queue := w.queue ++ [x.1] } := by
  unfold arrive
  rw [hx]

theorem arrive_of_ne {x : Nat × δ} (hx : w.labels[x.1]? ≠ some none) : w.arrive x = w := by
  unfold arrive
  split
  · next hnone => exact absurd hnone hx
  · rfl

theorem turn?_of_queue_nil (hqueue : w.queue = []) : turn? next w = none := by
  unfold turn?
  rw [hqueue]

theorem turn?_of_labelled {a : Nat} {d : δ} {queue : List Nat} (hqueue : w.queue = a :: queue)
    (hlabel : w.labels[a]? = some (some d)) :
    turn? next w = some (a, (next a d).foldl arrive { w with queue }) := by
  unfold turn?
  rw [hqueue]
  dsimp only
  rw [hlabel]

/-- What a turn can do: it pops the front, and goes through some arrivals. -/
theorem turn?_eq_some {w' : Worklist δ} {a : Nat} (h : turn? next w = some (a, w')) :
    ∃ queue arrived, w.queue = a :: queue ∧ w' = List.foldl arrive { w with queue } arrived := by
  unfold turn? at h
  split at h
  · cases h
  · next b queue hqueue =>
    split at h
    · next d _ =>
      obtain ⟨rfl, rfl⟩ := Prod.mk.inj (Option.some.inj h)
      exact ⟨queue, next b d, hqueue, rfl⟩
    · -- passed over: no arrivals
      obtain ⟨rfl, rfl⟩ := Prod.mk.inj (Option.some.inj h)
      exact ⟨queue, [], hqueue, rfl⟩

/-! ## The loop ends -/

/-- How much is left to do: nodes without a label, and nodes in the queue. -/
def pending (w : Worklist δ) : Nat := w.labels.countP Option.isNone + w.queue.length

theorem pending_arrive (w : Worklist δ) (x : Nat × δ) : (w.arrive x).pending = w.pending := by
  by_cases hx : w.labels[x.1]? = some none
  · obtain ⟨hlt, hnone⟩ := List.getElem?_eq_some_iff.mp hx
    have hpos : 0 < w.labels.countP Option.isNone :=
      List.countP_pos_iff.mpr ⟨none, hnone ▸ List.getElem_mem hlt, rfl⟩
    have hcount : (w.labels.set x.1 (some x.2)).countP Option.isNone
        = w.labels.countP Option.isNone - 1 := by
      rw [List.countP_set hlt, hnone]
      rfl
    rw [arrive_of_unlabelled hx, pending, pending, hcount, List.length_append,
      List.length_singleton]
    omega
  · rw [arrive_of_ne hx]

theorem pending_foldl_arrive (w : Worklist δ) (arrived : List (Nat × δ)) :
    (arrived.foldl arrive w).pending = w.pending := by
  induction arrived generalizing w with
  | nil => rfl
  | cons x rest ih => rw [List.foldl_cons, ih, pending_arrive]

/-- The queue may grow, but only by nodes that lose their place among the
unlabelled. -/
theorem pending_turn {w' : Worklist δ} {a : Nat} (h : turn? next w = some (a, w')) :
    w'.pending + 1 = w.pending := by
  obtain ⟨queue, arrived, hqueue, rfl⟩ := turn?_eq_some h
  rw [pending_foldl_arrive, pending, pending, hqueue, List.length_cons, Nat.add_assoc]

theorem wellFounded_turn (next : Nat → δ → List (Nat × δ)) :
    WellFounded fun after before => ∃ a, turn? next before = some (a, after) := by
  refine Subrelation.wf ?_ (measure (pending (δ := δ))).wf
  rintro after before ⟨a, hturn⟩
  have hpending := pending_turn hturn
  show after.pending < before.pending
  omega

/-- A turn has one outcome, so a run is the front of every run to an empty
queue. -/
theorem Run.front_of_empty {all popped : List Nat} {w' last : Worklist δ}
    (h : Run next w popped w') (hall : Run next w all last) (hempty : last.queue = []) :
    popped <+: all := by
  induction h generalizing all with
  | stop w => exact List.nil_prefix
  | @turn w w' w'' a popped hturn hrun ih =>
      cases hall with
      | stop => rw [turn?_of_queue_nil hempty] at hturn; cases hturn
      | turn hturn' hall =>
          obtain ⟨rfl, rfl⟩ := Prod.mk.inj (Option.some.inj (hturn.symm.trans hturn'))
          exact (List.prefix_cons_inj _).mpr (ih hall)

/-! ## Worklists and explorations -/

/-- The worklist holds the state of an exploration that has made the visits
`done`. -/
structure Matches (w : Worklist δ) (unseen : List Nat) (done queue : List (Nat × δ)) : Prop where
  nodup : unseen.Nodup
  unseen_iff : ∀ a, a ∈ unseen ↔ w.labels[a]? = some none
  labelled_iff : ∀ a d, w.labels[a]? = some (some d) ↔ (a, d) ∈ done ++ queue
  queue_eq : w.queue = queue.map Prod.fst

namespace Matches

variable {unseen : List Nat} {done queue : List (Nat × δ)}

theorem arrive {x : Nat × δ} (h : Matches w unseen done queue) (hx : x.1 ∈ unseen) :
    Matches (w.arrive x) (unseen.erase x.1) done (queue ++ [x]) := by
  have hnone := (h.unseen_iff x.1).mp hx
  have hlt : x.1 < w.labels.length := (List.getElem?_eq_some_iff.mp hnone).1
  rw [arrive_of_unlabelled hnone]
  refine ⟨h.nodup.erase x.1, fun a => ?_, fun a d => ?_, ?_⟩
  · rw [h.nodup.mem_erase_iff, h.unseen_iff]
    by_cases ha : x.1 = a
    · subst ha
      simp [List.getElem?_set_self hlt]
    · rw [List.getElem?_set_ne ha]
      exact and_iff_right (Ne.symm ha)
  · rw [← List.append_assoc, List.mem_append, List.mem_singleton, ← h.labelled_iff]
    by_cases ha : x.1 = a
    · subst ha
      rw [List.getElem?_set_self hlt, hnone]
      constructor
      · intro hlabel
        obtain rfl := Option.some.inj (Option.some.inj hlabel)
        exact Or.inr rfl
      · rintro (hlabel | heq)
        · cases Option.some.inj hlabel
        · rw [← heq]
    · rw [List.getElem?_set_ne ha]
      constructor
      · exact Or.inl
      · rintro (hlabel | rfl)
        · exact hlabel
        · exact absurd rfl ha
  · rw [h.queue_eq, List.map_append, List.map_singleton]

theorem arrive_of_notMem {x : Nat × δ} (h : Matches w unseen done queue) (hx : x.1 ∉ unseen) :
    w.arrive x = w :=
  arrive_of_ne fun hnone => hx ((h.unseen_iff x.1).mpr hnone)

theorem arriveAll (h : Matches w unseen done queue) (arrived : List (Nat × δ)) :
    Matches (arrived.foldl Worklist.arrive w)
      (Explore.remaining unseen (Explore.fresh unseen arrived)) done
      (queue ++ Explore.fresh unseen arrived) := by
  induction arrived generalizing w unseen queue with
  | nil => simpa [Explore.fresh, Explore.remaining] using h
  | cons x rest ih =>
      obtain ⟨a, d⟩ := x
      rw [List.foldl_cons, Explore.fresh]
      by_cases ha : a ∈ unseen
      · rw [if_pos ha, Explore.remaining_cons, List.append_cons]
        exact ih (h.arrive ha)
      · rw [if_neg ha, h.arrive_of_notMem ha]
        exact ih h

/-- The front of the queue has its label, so the turn is its visit. -/
theorem turn {a : Nat} {d : δ} (next : Nat → δ → List (Nat × δ))
    (h : Matches w unseen done ((a, d) :: queue)) :
    ∃ w', turn? next w = some (a, w')
      ∧ Matches w' (Explore.remaining unseen (Explore.fresh unseen (next a d)))
          (done ++ [(a, d)]) (queue ++ Explore.fresh unseen (next a d)) := by
  have hlabel : w.labels[a]? = some (some d) := (h.labelled_iff a d).mpr (by simp)
  have hpopped : Matches { w with queue := queue.map Prod.fst } unseen (done ++ [(a, d)]) queue :=
    ⟨h.nodup, h.unseen_iff, by simpa using h.labelled_iff, rfl⟩
  exact ⟨_, turn?_of_labelled h.queue_eq hlabel, hpopped.arriveAll (next a d)⟩

/-- With enough fuel the visits of an exploration are the turns of the
worklist up to the empty queue. -/
theorem run {fuel : Nat} (h : Matches w unseen done queue)
    (hfuel : unseen.length + queue.length ≤ fuel) :
    ∃ w', Run next w ((Explore.visits next fuel unseen queue).map Prod.fst) w' ∧ w'.queue = []
      ∧ ∀ a d, w'.labels[a]? = some (some d) ↔
          (a, d) ∈ done ++ Explore.visits next fuel unseen queue := by
  induction fuel generalizing w unseen done queue with
  | zero =>
      -- the fuel is used up, and by the bound so is the queue
      obtain rfl : queue = [] := List.eq_nil_of_length_eq_zero (by omega)
      exact ⟨w, .stop w, h.queue_eq, h.labelled_iff⟩
  | succ fuel ih =>
      cases queue with
      | nil => exact ⟨w, .stop w, h.queue_eq, h.labelled_iff⟩
      | cons x queue =>
          obtain ⟨a, d⟩ := x
          obtain ⟨w₁, hturn, hmatch⟩ := h.turn next
          obtain ⟨w', hrun, hempty, hlabels⟩ := ih hmatch (Explore.fuel_step hfuel)
          rw [Explore.visits, List.map_cons, List.append_cons]
          exact ⟨w', .turn hturn hrun, hempty, hlabels⟩

end Matches

theorem matches_unlabelled (count : Nat) :
    Matches (δ := δ) { labels := List.replicate count none, queue := [] } (List.range count) []
      [] := by
  refine ⟨List.nodup_range, fun a => ?_, fun a d => ?_, rfl⟩
  · rw [List.mem_range, List.getElem?_replicate]
    simp
  · rw [List.getElem?_replicate]
    simp

/-- **The loop is the exploration**, on any graph. -/
theorem drains_start (next : Nat → δ → List (Nat × δ)) (count : Nat) (label : δ) :
    Drains next (start count label) (explore (List.range count) next 0 label) := by
  have hrun : ∃ w', Run next (start count label)
        ((explore (List.range count) next 0 label).map Prod.fst) w' ∧ w'.queue = []
      ∧ ∀ a d, w'.labels[a]? = some (some d) ↔
          (a, d) ∈ explore (List.range count) next 0 label := by
    have hbefore := matches_unlabelled (δ := δ) count
    by_cases hzero : 0 ∈ List.range count
    · have hmatch : Matches (start count label) ((List.range count).erase 0) [] [(0, label)] :=
        hbefore.arrive hzero
      rw [explore_of_mem hzero]
      exact hmatch.run (explore_fuel hzero)
    · have hstart : start count label = { labels := List.replicate count none, queue := [] } :=
        hbefore.arrive_of_notMem hzero
      rw [hstart, explore, if_neg hzero]
      exact ⟨_, .stop _, rfl, hbefore.labelled_iff⟩
  refine ⟨(wellFounded_turn next).apply _, hrun, fun hpart => ?_⟩
  obtain ⟨w', hall, hempty, -⟩ := hrun
  exact hpart.front_of_empty hall hempty

end Worklist

end BehaviorScript
