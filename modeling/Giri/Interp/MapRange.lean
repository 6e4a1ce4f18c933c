/-
Giri.Interp.MapRange — ranging over a map that changes (`ssa.Range` and
`ssa.Next` for a map, `rangeIter.advance`).

The iterator collects the keys of the map at the first `advance`, and then
yields them one after the other, whatever became of them. So every key that
is there at the start is yielded once, and the loop ends; but a key that an
iteration deletes is yielded all the same, with the value `Value{}`.

The loop body is any function on a state, of which `view` shows the map.
-/
import Giri.Interp.MapsTheorems

namespace Giri.Maps

open Value MapKey

/-- `rangeIter` over a map. -/
structure RangeIter where
  idx : Nat := 0
  mapKeys : Option (List Key) := none

/-- `advance`. The host, or `sortMapKeys`, brings the keys into an `order`. -/
def RangeIter.advance (order : List Key → List Key) (ri : RangeIter) (m : List (Key × Raw)) :
    RangeIter × Option (Raw × Raw) :=
  let mapKeys := ri.mapKeys.getD (order (m.map Prod.fst))
  match mapKeys[ri.idx]? with
  | none => (⟨ri.idx, some mapKeys⟩, none)
  | some key =>
    (⟨ri.idx + 1, some mapKeys⟩,
      some (valueFromMapKey key, (Entries.find Key.same key m).getD .nil))

/-- What an iteration gets, and the states before and after its body. -/
structure Iteration (σ : Type) where
  key : Raw
  value : Raw
  before : σ
  after : σ

section

variable {σ : Type} (order : List Key → List Key) (view : σ → List (Key × Raw))
  (body : Raw → Raw → σ → σ) (pr : Printer)

/-- The iterations, and the state at the end; `none` if there is not enough fuel. -/
def rangeLoop : Nat → RangeIter → σ → Option (List (Iteration σ) × σ)
  | 0, _, _ => none
  | fuel + 1, ri, s =>
    match ri.advance order (view s) with
    | (_, none) => some ([], s)
    | (ri, some (k, v)) =>
      (rangeLoop fuel ri (body k v s)).map fun (its, last) => (⟨k, v, s, body k v s⟩ :: its, last)

/-- The map has an element for a key. -/
def Has (s : σ) (k : Raw) : Prop := (Entries.find Key.same (toMapKey pr k) (view s)).isSome = true

/-- No iteration removes a key that is yet to come. -/
def KeepsRest (its : List (Iteration σ)) : Prop :=
  its.Pairwise fun it later => Has view pr it.before later.key → Has view pr it.after later.key

/-- A key that equals itself, and that the iterator can give back. -/
def Readable (k : Key) : Prop := k ≠ .nil ∧ k.same k = true

theorem toMapKey_valueFromMapKey {k : Key} (h : Readable k) : toMapKey pr (valueFromMapKey k) = k := by
  cases k with
  | nil => exact absurd rfl h.1
  | int | float | bool | str => rfl

theorem find_isSome_of_mem {m : List (Key × Raw)} {e : Key × Raw} (he : e ∈ m)
    (hself : e.1.same e.1 = true) : (Entries.find Key.same e.1 m).isSome = true := by
  simp only [Entries.find, Option.isSome_map, List.find?_isSome]
  exact ⟨e, he, hself⟩

/-- The loop from the position where `rest` is left of the collected keys. -/
theorem rangeLoop_rest {mapKeys : List Key} : ∀ (rest : List Key) {i : Nat} (s : σ),
    mapKeys.drop i = rest →
    ∃ its last, rangeLoop order view body (rest.length + 1) ⟨i, some mapKeys⟩ s = some (its, last) ∧
      its.map Iteration.key = rest.map valueFromMapKey ∧
      ((∀ k ∈ rest, Readable k) → KeepsRest view pr its →
        (∀ k ∈ rest, Has view pr s (valueFromMapKey k)) →
        ∀ it ∈ its,
          Entries.find Key.same (toMapKey pr it.key) (view it.before) = some it.value) := by
  intro rest
  induction rest with
  | nil =>
    intro i s hrest
    have hget : mapKeys[i]? = none := by simpa using hrest
    exact ⟨[], s, by simp [rangeLoop, RangeIter.advance, hget], rfl, by simp⟩
  | cons k rest ih =>
    intro i s hrest
    have hget : mapKeys[i]? = some k := by
      rw [← List.head?_drop, hrest, List.head?_cons]
    have htail : mapKeys.drop (i + 1) = rest := by
      rw [← List.tail_drop, hrest, List.tail_cons]
    obtain ⟨its, last, hloop, hkeys, hvals⟩ := ih (body (valueFromMapKey k)
      ((Entries.find Key.same k (view s)).getD .nil) s) htail
    refine ⟨_, last, by simp [rangeLoop, RangeIter.advance, hget, hloop]; rfl, by simp [hkeys], ?_⟩
    intro hread hkeep hhas it hit
    obtain ⟨hfirst, hkeep⟩ := List.pairwise_cons.mp hkeep
    rcases List.mem_cons.mp hit with rfl | hit
    · -- the key is still there: what is found is the value
      have hk := toMapKey_valueFromMapKey pr (hread k List.mem_cons_self)
      have hthere := hhas k List.mem_cons_self
      unfold Has at hthere
      rw [hk] at hthere ⊢
      exact (Option.some_get hthere).symm.trans (by rw [Option.get_eq_getD])
    · refine hvals (fun k' hk' => hread k' (List.mem_cons_of_mem _ hk')) hkeep ?_ it hit
      intro k' hk'
      -- the rest of the keys are those of the iterations to come
      have hmem : valueFromMapKey k' ∈ its.map Iteration.key := hkeys ▸ List.mem_map_of_mem hk'
      obtain ⟨later, hlater, hkey⟩ := List.mem_map.mp hmem
      have := hfirst later hlater
      rw [hkey] at this
      exact this (hhas k' (List.mem_cons_of_mem _ hk'))

end

/-- `for k := range m { op }` over a map with these entries. -/
def rangeOver (m : List (Key × Raw)) (op : Raw → Op) : Option (List (Iteration State) × State) :=
  rangeLoop id (fun s => entriesOf s.maps 0) (fun k _ s => (step noPrinter 1 "" s (op k)).1)
    (m.length + 1) {} { maps := [m] }

end Giri.Maps
