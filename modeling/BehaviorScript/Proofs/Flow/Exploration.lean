import BehaviorScript.Flow.Explore
import Mathlib.Data.List.Basic
import Mathlib.Data.List.Chain
import Mathlib.Logic.Relation

/-!
# What an exploration visits

The facts that every client of `explore` reasons with, for an arbitrary
`next`:

- **start** (`start_mem_explore`): the start is visited with its label;
- **closure** (`explore_closed`): what a visit arrives at is visited, at
  this label or at an earlier one;
- **soundness** (`arrives_of_mem_explore`): every visit, label included,
  lies at the end of a chain of arrivals from the start, and the chain can
  be taken from the visits themselves, in their order (`exists_trail`);
- **once** (`nodup_explore`): no node is visited twice;
- **locality** (`explore_congr`): what `next` is at nodes that are never
  visited makes no difference.

The queue of `Explore.visits` and the nodes still unseen always fit into
the remaining fuel. That bound is the only thing closure needs: a node is
either still unseen or already in the queue, and the queue is worked off.
-/

namespace BehaviorScript

namespace Explore

variable {α δ : Type} [DecidableEq α]

/-- A visit of `x` arrives at `y`. -/
def Arrival (next : α → δ → List (α × δ)) (x y : α × δ) : Prop := y ∈ next x.1 x.2

/-! ## What one visit finds -/

theorem mem_of_mem_fresh {x : α × δ} {unseen : List α} {arrived : List (α × δ)}
    (h : x ∈ fresh unseen arrived) : x ∈ arrived ∧ x.1 ∈ unseen := by
  induction arrived generalizing unseen with
  | nil => simp [fresh] at h
  | cons head rest ih =>
      obtain ⟨a, d⟩ := head
      rw [fresh] at h
      split at h
      · next ha =>
        rcases List.mem_cons.mp h with rfl | h
        · exact ⟨List.mem_cons_self .., ha⟩
        · obtain ⟨hrest, hunseen⟩ := ih h
          exact ⟨List.mem_cons_of_mem _ hrest, List.mem_of_mem_erase hunseen⟩
      · obtain ⟨hrest, hunseen⟩ := ih h
        exact ⟨List.mem_cons_of_mem _ hrest, hunseen⟩

/-- An unseen node that is arrived at is found, with the label of the
first arrival. -/
theorem exists_mem_fresh {b : α} {e : δ} {unseen : List α} {arrived : List (α × δ)}
    (hb : b ∈ unseen) (h : (b, e) ∈ arrived) : ∃ e', (b, e') ∈ fresh unseen arrived := by
  induction arrived generalizing unseen with
  | nil => simp at h
  | cons head rest ih =>
      obtain ⟨a, d⟩ := head
      rw [fresh]
      by_cases hab : b = a
      · subst hab
        rw [if_pos hb]
        exact ⟨d, List.mem_cons_self ..⟩
      · have hrest : (b, e) ∈ rest := by
          rcases List.mem_cons.mp h with heq | h
          · exact absurd (Prod.mk.inj heq).1 hab
          · exact h
        split
        · obtain ⟨e', he'⟩ := ih ((List.mem_erase_of_ne hab).mpr hb) hrest
          exact ⟨e', List.mem_cons_of_mem _ he'⟩
        · exact ih hb hrest

theorem remaining_cons (unseen : List α) (x : α × δ) (found : List (α × δ)) :
    remaining unseen (x :: found) = remaining (unseen.erase x.1) found := rfl

theorem mem_of_mem_remaining {b : α} {unseen : List α} {found : List (α × δ)}
    (h : b ∈ remaining unseen found) : b ∈ unseen := by
  induction found generalizing unseen with
  | nil => exact h
  | cons x rest ih => exact List.mem_of_mem_erase (ih (remaining_cons unseen x rest ▸ h))

theorem mem_remaining_or_found {b : α} {unseen : List α} (found : List (α × δ))
    (hb : b ∈ unseen) : b ∈ remaining unseen found ∨ ∃ e, (b, e) ∈ found := by
  induction found generalizing unseen with
  | nil => exact Or.inl hb
  | cons x rest ih =>
      by_cases hbx : b = x.1
      · exact Or.inr ⟨x.2, by rw [hbx]; exact List.mem_cons_self ..⟩
      · rw [remaining_cons]
        rcases ih ((List.mem_erase_of_ne hbx).mpr hb) with h | ⟨e, he⟩
        · exact Or.inl h
        · exact Or.inr ⟨e, List.mem_cons_of_mem _ he⟩

/-- Every node that is found was one of the unseen. -/
theorem length_remaining_fresh (unseen : List α) (arrived : List (α × δ)) :
    (remaining unseen (fresh unseen arrived)).length + (fresh unseen arrived).length
      = unseen.length := by
  induction arrived generalizing unseen with
  | nil => rfl
  | cons head rest ih =>
      obtain ⟨a, d⟩ := head
      rw [fresh]
      split
      · next ha =>
        have hlen := ih (unseen.erase a)
        have hpos : 0 < unseen.length := List.length_pos_of_mem ha
        rw [List.length_erase_of_mem ha] at hlen
        rw [remaining_cons, List.length_cons]
        dsimp only
        omega
      · exact ih unseen

theorem nodup_remaining {unseen : List α} (hu : unseen.Nodup) (found : List (α × δ)) :
    (remaining unseen found).Nodup := by
  induction found generalizing unseen with
  | nil => exact hu
  | cons x rest ih => exact ih (hu.erase x.1)

theorem notMem_remaining_of_mem {x : α × δ} {unseen : List α} (hu : unseen.Nodup)
    {found : List (α × δ)} (hx : x ∈ found) : x.1 ∉ remaining unseen found := by
  induction found generalizing unseen with
  | nil => simp at hx
  | cons y rest ih =>
      rw [remaining_cons]
      rcases List.mem_cons.mp hx with rfl | hx
      · intro h
        exact (List.Nodup.mem_erase_iff hu).mp (mem_of_mem_remaining h) |>.1 rfl
      · exact ih (hu.erase y.1) hx

theorem nodup_fresh {unseen : List α} (hu : unseen.Nodup) (arrived : List (α × δ)) :
    ((fresh unseen arrived).map Prod.fst).Nodup := by
  induction arrived generalizing unseen with
  | nil => exact List.nodup_nil
  | cons head rest ih =>
      obtain ⟨a, d⟩ := head
      rw [fresh]
      split
      · rw [List.map_cons, List.nodup_cons]
        refine ⟨fun h => ?_, ih (hu.erase a)⟩
        obtain ⟨x, hx, hxa⟩ := List.mem_map.mp h
        have hmem := (mem_of_mem_fresh hx).2
        rw [hxa] at hmem
        exact ((List.Nodup.mem_erase_iff hu).mp hmem).1 rfl
      · exact ih hu

/-! ## The run of visits -/

/-- The unseen nodes and the queue fit into the fuel, and one visit
keeps it so. -/
theorem fuel_step {next : α → δ → List (α × δ)} {fuel : Nat} {unseen : List α} {a : α} {d : δ}
    {queue : List (α × δ)} (hfuel : unseen.length + ((a, d) :: queue).length ≤ fuel + 1) :
    (remaining unseen (fresh unseen (next a d))).length
      + (queue ++ fresh unseen (next a d)).length ≤ fuel := by
  have hlen := length_remaining_fresh unseen (next a d)
  rw [List.length_cons] at hfuel
  rw [List.length_append]
  omega

theorem mem_visits_of_mem_queue {next : α → δ → List (α × δ)} {x : α × δ} {fuel : Nat}
    {unseen : List α} {queue : List (α × δ)} (hfuel : unseen.length + queue.length ≤ fuel)
    (hx : x ∈ queue) : x ∈ visits next fuel unseen queue := by
  induction fuel generalizing unseen queue with
  | zero =>
      have := List.length_pos_of_mem hx
      omega
  | succ fuel ih =>
      cases queue with
      | nil => simp at hx
      | cons head queue =>
          obtain ⟨a, d⟩ := head
          rw [visits]
          rcases List.mem_cons.mp hx with rfl | hx
          · exact List.mem_cons_self ..
          · exact List.mem_cons_of_mem _ (ih (fuel_step hfuel) (List.mem_append_left _ hx))

/-- An unseen node that some visit arrives at is visited: it is found at
that visit, or it was found before and waits in the queue. -/
theorem visits_closed {next : α → δ → List (α × δ)} {x : α × δ} {b : α} {e : δ} {fuel : Nat}
    {unseen : List α} {queue : List (α × δ)} (hfuel : unseen.length + queue.length ≤ fuel)
    (hx : x ∈ visits next fuel unseen queue) (hy : Arrival next x (b, e)) (hb : b ∈ unseen) :
    ∃ e', (b, e') ∈ visits next fuel unseen queue := by
  induction fuel generalizing unseen queue with
  | zero => simp [visits] at hx
  | succ fuel ih =>
      cases queue with
      | nil => simp [visits] at hx
      | cons head queue =>
          obtain ⟨a, d⟩ := head
          rw [visits] at hx ⊢
          have hqueued : (∃ e', (b, e') ∈ fresh unseen (next a d)) →
              ∃ e', (b, e') ∈ (a, d) :: visits next fuel
                (remaining unseen (fresh unseen (next a d)))
                (queue ++ fresh unseen (next a d)) := by
            rintro ⟨e', he'⟩
            exact ⟨e', List.mem_cons_of_mem _ (mem_visits_of_mem_queue (fuel_step hfuel)
              (List.mem_append_right _ he'))⟩
          rcases List.mem_cons.mp hx with rfl | hx
          · exact hqueued (exists_mem_fresh hb hy)
          · rcases mem_remaining_or_found (fresh unseen (next a d)) hb with hleft | hfound
            · obtain ⟨e', he'⟩ := ih (fuel_step hfuel) hx hleft
              exact ⟨e', List.mem_cons_of_mem _ he'⟩
            · exact hqueued hfound

theorem arrives_of_mem_visits {next : α → δ → List (α × δ)} {x : α × δ} {fuel : Nat}
    {unseen : List α} {queue : List (α × δ)} (hx : x ∈ visits next fuel unseen queue) :
    ∃ q ∈ queue, Relation.ReflTransGen (Arrival next) q x := by
  induction fuel generalizing unseen queue with
  | zero => simp [visits] at hx
  | succ fuel ih =>
      cases queue with
      | nil => simp [visits] at hx
      | cons head queue =>
          obtain ⟨a, d⟩ := head
          rw [visits] at hx
          rcases List.mem_cons.mp hx with rfl | hx
          · exact ⟨_, List.mem_cons_self .., Relation.ReflTransGen.refl⟩
          · obtain ⟨q, hq, hreach⟩ := ih hx
            rcases List.mem_append.mp hq with hq | hq
            · exact ⟨q, List.mem_cons_of_mem _ hq, hreach⟩
            · exact ⟨(a, d), List.mem_cons_self ..,
                Relation.ReflTransGen.head (mem_of_mem_fresh hq).1 hreach⟩

/-- A visit that is not queued yet will be found by an earlier one, so a
chain of arrivals leads back to the queue inside of the visits. -/
theorem exists_trail_of_mem_visits {next : α → δ → List (α × δ)} {x : α × δ} {fuel : Nat}
    {unseen : List α} {queue : List (α × δ)} (hx : x ∈ visits next fuel unseen queue) :
    ∃ q ∈ queue, ∃ trail, (trail ++ [x]).IsChain (Arrival next)
      ∧ (trail ++ [x]).head? = some q
      ∧ (trail ++ [x]).Sublist (visits next fuel unseen queue) := by
  induction fuel generalizing unseen queue with
  | zero => simp [visits] at hx
  | succ fuel ih =>
      cases queue with
      | nil => simp [visits] at hx
      | cons head queue =>
          obtain ⟨a, d⟩ := head
          rw [visits] at hx ⊢
          rcases List.mem_cons.mp hx with rfl | hx
          · exact ⟨_, List.mem_cons_self .., [], List.isChain_singleton _, rfl,
              List.singleton_sublist.mpr (List.mem_cons_self ..)⟩
          · obtain ⟨q, hq, trail, hchain, hhead, hsub⟩ := ih hx
            rcases List.mem_append.mp hq with hq | hq
            · exact ⟨q, List.mem_cons_of_mem _ hq, trail, hchain, hhead, hsub.cons _⟩
            · refine ⟨(a, d), List.mem_cons_self .., (a, d) :: trail, ?_, rfl,
                hsub.cons_cons _⟩
              refine List.isChain_cons.mpr ⟨fun y hy => ?_, hchain⟩
              obtain rfl := Option.some.inj (hhead.symm.trans hy)
              exact (mem_of_mem_fresh hq).1

theorem mem_queue_or_unseen_of_mem_visits {next : α → δ → List (α × δ)} {x : α × δ} {fuel : Nat}
    {unseen : List α} {queue : List (α × δ)} (hx : x ∈ visits next fuel unseen queue) :
    x ∈ queue ∨ x.1 ∈ unseen := by
  induction fuel generalizing unseen queue with
  | zero => simp [visits] at hx
  | succ fuel ih =>
      cases queue with
      | nil => simp [visits] at hx
      | cons head queue =>
          obtain ⟨a, d⟩ := head
          rw [visits] at hx
          rcases List.mem_cons.mp hx with rfl | hx
          · exact Or.inl (List.mem_cons_self ..)
          · rcases ih hx with hq | hu
            · rcases List.mem_append.mp hq with hq | hq
              · exact Or.inl (List.mem_cons_of_mem _ hq)
              · exact Or.inr (mem_of_mem_fresh hq).2
            · exact Or.inr (mem_of_mem_remaining hu)

/-- Queue and unseen nodes stay apart, so no visited node comes back. -/
theorem nodup_visits {next : α → δ → List (α × δ)} {fuel : Nat} {unseen : List α}
    {queue : List (α × δ)} (hu : unseen.Nodup) (hq : (queue.map Prod.fst).Nodup)
    (hdisj : ∀ x ∈ queue, x.1 ∉ unseen) :
    ((visits next fuel unseen queue).map Prod.fst).Nodup := by
  induction fuel generalizing unseen queue with
  | zero => exact List.nodup_nil
  | succ fuel ih =>
      cases queue with
      | nil => exact List.nodup_nil
      | cons head queue =>
          obtain ⟨a, d⟩ := head
          rw [List.map_cons, List.nodup_cons] at hq
          obtain ⟨ha, hq⟩ := hq
          have hau : a ∉ unseen := hdisj (a, d) (List.mem_cons_self ..)
          have hdisj' : ∀ x ∈ queue, x.1 ∉ unseen := fun x hx =>
            hdisj x (List.mem_cons_of_mem _ hx)
          rw [visits, List.map_cons, List.nodup_cons]
          refine ⟨fun h => ?_, ih (nodup_remaining hu _) ?_ ?_⟩
          · obtain ⟨x, hx, rfl : x.1 = a⟩ := List.mem_map.mp h
            rcases mem_queue_or_unseen_of_mem_visits hx with hx | hx
            · rcases List.mem_append.mp hx with hx | hx
              · exact ha (List.mem_map.mpr ⟨x, hx, rfl⟩)
              · exact hau (mem_of_mem_fresh hx).2
            · exact hau (mem_of_mem_remaining hx)
          · rw [List.map_append, List.nodup_append]
            refine ⟨hq, nodup_fresh hu _, ?_⟩
            intro b hb c hc hbc
            obtain ⟨x, hx, rfl⟩ := List.mem_map.mp hb
            obtain ⟨y, hy, rfl⟩ := List.mem_map.mp hc
            exact hdisj' x hx (hbc ▸ (mem_of_mem_fresh hy).2)
          · intro x hx
            rcases List.mem_append.mp hx with hx | hx
            · exact fun h => hdisj' x hx (mem_of_mem_remaining h)
            · exact notMem_remaining_of_mem hu hx

theorem visits_congr {next next' : α → δ → List (α × δ)} {fuel : Nat} {unseen : List α}
    {queue : List (α × δ)}
    (h : ∀ x ∈ visits next fuel unseen queue, next x.1 x.2 = next' x.1 x.2) :
    visits next fuel unseen queue = visits next' fuel unseen queue := by
  induction fuel generalizing unseen queue with
  | zero => rfl
  | succ fuel ih =>
      cases queue with
      | nil => rfl
      | cons head queue =>
          obtain ⟨a, d⟩ := head
          rw [visits] at h
          have hhere : next a d = next' a d := h (a, d) (List.mem_cons_self ..)
          rw [visits, visits, ← hhere, ih fun x hx => h x (List.mem_cons_of_mem _ hx)]

end Explore

/-! ## Explorations -/

section

variable {α δ : Type} [DecidableEq α] {nodes : List α} {next : α → δ → List (α × δ)}
  {start : α} {label : δ}

theorem explore_of_mem (hstart : start ∈ nodes) :
    explore nodes next start label
      = Explore.visits next nodes.length (nodes.erase start) [(start, label)] :=
  if_pos hstart

theorem explore_fuel (hstart : start ∈ nodes) :
    (nodes.erase start).length + [(start, label)].length ≤ nodes.length := by
  have hpos : 0 < nodes.length := List.length_pos_of_mem hstart
  rw [List.length_erase_of_mem hstart, List.length_singleton]
  omega

theorem start_mem_nodes {x : α × δ} (hx : x ∈ explore nodes next start label) :
    start ∈ nodes := by
  by_contra hstart
  rw [explore, if_neg hstart] at hx
  exact List.not_mem_nil hx

theorem start_mem_explore (hstart : start ∈ nodes) :
    (start, label) ∈ explore nodes next start label := by
  rw [explore_of_mem hstart]
  exact Explore.mem_visits_of_mem_queue (explore_fuel hstart) (List.mem_singleton.mpr rfl)

/-- What a visit arrives at is visited as well. -/
theorem explore_closed {x : α × δ} {b : α} {e : δ} (hx : x ∈ explore nodes next start label)
    (hy : Explore.Arrival next x (b, e)) (hb : b ∈ nodes) :
    ∃ e', (b, e') ∈ explore nodes next start label := by
  have hstart := start_mem_nodes hx
  by_cases hbs : b = start
  · subst hbs
    exact ⟨label, start_mem_explore hstart⟩
  · rw [explore_of_mem hstart] at hx ⊢
    exact Explore.visits_closed (explore_fuel hstart) hx hy
      ((List.mem_erase_of_ne hbs).mpr hb)

theorem arrives_of_mem_explore {x : α × δ} (hx : x ∈ explore nodes next start label) :
    Relation.ReflTransGen (Explore.Arrival next) (start, label) x := by
  rw [explore_of_mem (start_mem_nodes hx)] at hx
  obtain ⟨q, hq, hreach⟩ := Explore.arrives_of_mem_visits hx
  exact List.mem_singleton.mp hq ▸ hreach

/-- Each visit is arrived at from earlier visits. -/
theorem exists_trail {x : α × δ} (hx : x ∈ explore nodes next start label) :
    ∃ trail, (trail ++ [x]).IsChain (Explore.Arrival next)
      ∧ (trail ++ [x]).head? = some (start, label)
      ∧ (trail ++ [x]).Sublist (explore nodes next start label) := by
  have hstart := start_mem_nodes hx
  rw [explore_of_mem hstart] at hx ⊢
  obtain ⟨q, hq, trail, hchain, hhead, hsub⟩ := Explore.exists_trail_of_mem_visits hx
  exact ⟨trail, hchain, List.mem_singleton.mp hq ▸ hhead, hsub⟩

theorem mem_nodes_of_mem_explore {x : α × δ} (hx : x ∈ explore nodes next start label) :
    x.1 ∈ nodes := by
  have hstart := start_mem_nodes hx
  rw [explore_of_mem hstart] at hx
  rcases Explore.mem_queue_or_unseen_of_mem_visits hx with hq | hu
  · rw [List.mem_singleton.mp hq]
    exact hstart
  · exact List.mem_of_mem_erase hu

theorem nodup_explore (hnodes : nodes.Nodup) :
    ((explore nodes next start label).map Prod.fst).Nodup := by
  by_cases hstart : start ∈ nodes
  · rw [explore_of_mem hstart]
    refine Explore.nodup_visits (hnodes.erase start) (by simp) ?_
    intro x hx
    rw [List.mem_singleton.mp hx]
    exact fun h => ((List.Nodup.mem_erase_iff hnodes).mp h).1 rfl
  · rw [explore, if_neg hstart]
    exact List.nodup_nil

theorem explore_congr {next' : α → δ → List (α × δ)}
    (h : ∀ x ∈ explore nodes next start label, next x.1 x.2 = next' x.1 x.2) :
    explore nodes next start label = explore nodes next' start label := by
  by_cases hstart : start ∈ nodes
  · rw [explore_of_mem hstart] at h
    rw [explore_of_mem hstart, explore_of_mem hstart, Explore.visits_congr h]
  · rw [explore, explore, if_neg hstart, if_neg hstart]

/-- Where the nodes that a visit arrives at do not depend on its label,
the visited nodes are those at the end of a chain of arrivals. -/
theorem mem_explore_nodes_iff {step : α → α → Prop} (hstart : start ∈ nodes)
    (hstep : ∀ a d b, step a b ↔ ∃ e, (b, e) ∈ next a d)
    (hnodes : ∀ a b, step a b → b ∈ nodes) (a : α) :
    a ∈ (explore nodes next start label).map Prod.fst ↔ Relation.ReflTransGen step start a := by
  constructor
  · intro ha
    obtain ⟨x, hx, rfl⟩ := List.mem_map.mp ha
    exact (arrives_of_mem_explore hx).lift Prod.fst
      fun x y hxy => (hstep x.1 x.2 y.1).mpr ⟨y.2, hxy⟩
  · intro ha
    induction ha with
    | refl => exact List.mem_map.mpr ⟨_, start_mem_explore hstart, rfl⟩
    | @tail b c _ hbc ih =>
        obtain ⟨x, hx, rfl⟩ := List.mem_map.mp ih
        obtain ⟨e, he⟩ := (hstep x.1 x.2 c).mp hbc
        obtain ⟨e', he'⟩ := explore_closed hx he (hnodes _ _ hbc)
        exact List.mem_map.mpr ⟨_, he', rfl⟩

end

end BehaviorScript
