/-
Giri.Interp.MapsTheorems — the maps of a session against Go's.

The two agree on what the entries are. They differ in what is NOT there
(`maps_differ`): the element of an absent key is unknown instead of zero,
delete and clear record a violation for a nil map, the length of a nil map
is unknown, and a cleared map keeps its NaN keys. Where none of this
happens, and no key is a complex number, the results are Go's
(`maps_agree`).
-/
import Giri.Interp.Maps

namespace Giri.Maps

open Value MapKey

/-! ## §1. Keys -/

/-- A known scalar that is its own key. -/
def Plain : Raw → Prop
  | .int _ | .float _ | .bool _ | .str _ => True
  | _ => False

/-- Keys are compared as the values they stand for. -/
theorem toMapKey_carries (pr : Printer) : Entries.Carries goEq Key.same (toMapKey pr) Plain := by
  intro a b ha hb
  cases a <;> cases b <;> first | rfl | exact False.elim ha | exact False.elim hb

/-! ## §2. Simulation -/

/-- The interpreter's maps are Go's, with other keys. -/
structure Sim (pr : Printer) (s : State) (g : GoState) : Prop where
  maps : s.maps = g.map (Entries.relabel (toMapKey pr))
  plain : ∀ m ∈ g, ∀ e ∈ m, Plain e.1

theorem entriesOf_relabel (pr : Printer) (g : GoState) (ref : Nat) :
    entriesOf (g.map (Entries.relabel (toMapKey pr))) ref =
      Entries.relabel (toMapKey pr) (entriesOf g ref) := by
  unfold entriesOf
  rw [List.getElem?_map]
  cases g[ref]? <;> rfl

namespace Sim

variable {pr : Printer} {s : State} {g : GoState}

theorem entries (h : Sim pr s g) (ref : Nat) :
    entriesOf s.maps ref = Entries.relabel (toMapKey pr) (entriesOf g ref) := by
  rw [h.maps, entriesOf_relabel]

theorem plain_entries (h : Sim pr s g) (ref : Nat) : ∀ e ∈ entriesOf g ref, Plain e.1 := by
  unfold entriesOf
  cases hm : g[ref]? with
  | none => exact nofun
  | some m => exact h.plain m (List.mem_of_getElem? hm)

/-- A map is replaced on both sides. -/
theorem set (h : Sim pr s g) (ref : Nat) {m : List (Raw × Raw)} (hm : ∀ e ∈ m, Plain e.1)
    {s' : State} (hs : s'.maps = s.maps.set ref (Entries.relabel (toMapKey pr) m)) :
    Sim pr s' (g.set ref m) := by
  refine ⟨?_, ?_⟩
  · rw [hs, h.maps, List.map_set]
  · intro m' hm'
    rcases List.mem_or_eq_of_mem_set hm' with hold | rfl
    · exact h.plain m' hold
    · exact hm

end Sim

/-- What is asked of an operation: keys are known and not complex, the map is
not nil, a key that is looked up is there, and a map that is cleared has no
NaN in it. -/
def Regular (g : GoState) : Op → Prop
  | .make _ => True
  | .assign m k _ => m.isSome ∧ Plain k
  | .lookup m k _ _ => ∃ ref, m = some ref ∧ Plain k ∧ (Entries.find goEq k (entriesOf g ref)).isSome
  | .delete m k => m.isSome ∧ Plain k
  | .clear m => ∃ ref, m = some ref ∧ ∀ e ∈ entriesOf g ref, goEq e.1 e.1 = true
  | .len m => m.isSome

/-- The operations of a run are all regular. -/
def RegularRun : GoState → List (String × Op) → Prop
  | _, [] => True
  | g, (_, op) :: ops => Regular g op ∧ RegularRun (goStep g op).1 ops

/-- The violations of writes to nil maps. -/
def Violation.isNilWrite : Violation → Bool
  | .nilMapWrite _ _ => true
  | .invalidMakeArg _ _ _ _ => false

/-- **One operation.** -/
theorem step_sim {pr : Printer} (gid : Gid) (site : String) {s : State} {g : GoState}
    (h : Sim pr s g) {op : Op} (hop : Regular g op) :
    Sim pr (step pr gid site s op).1 (goStep g op).1 ∧
      (step pr gid site s op).2 = (goStep g op).2 ∧
      (step pr gid site s op).1.violations.filter Violation.isNilWrite =
        s.violations.filter Violation.isNilWrite ∧
      ∀ msg, (goStep g op).2 ≠ .panic msg := by
  have hf := toMapKey_carries pr
  cases op with
  | make reserve =>
    refine ⟨⟨?_, ?_⟩, ?_, ?_, fun _ h => by cases h⟩
    · simp [step, goStep, h.maps, Entries.relabel]
    · intro m hm
      rcases List.mem_append.mp hm with hm | hm
      · exact h.plain m hm
      · rw [List.mem_singleton.mp hm]
        exact fun e he => by cases he
    · simp [step, goStep, h.maps]
    · cases reserve with
      | none => simp [step]
      | some n => by_cases hn : n < 0 <;> simp [step, hn, Violation.isNilWrite]
  | assign m k v =>
    obtain ⟨hm, hk⟩ := hop
    obtain ⟨ref, rfl⟩ := Option.isSome_iff_exists.mp hm
    have hl := h.plain_entries ref
    refine ⟨h.set ref ?_ ?_, rfl, rfl, fun _ h => by cases h⟩
    · intro e he
      rcases Entries.mem_insert he with he | rfl
      · exact hl e he
      · exact hk
    · simp only [step, h.entries ref, Entries.insert_relabel hf hk v hl]
  | lookup =>
    obtain ⟨ref, rfl, hk, hfound⟩ := hop
    obtain ⟨v, hv⟩ := Option.isSome_iff_exists.mp hfound
    have hfind := Entries.find_relabel hf hk (h.plain_entries ref)
    refine ⟨h, ?_, rfl, ?_⟩
    · simp [step, goStep, h.entries ref, hfind, hv, lookupResult]
    · intro msg
      simp only [goStep, lookupResult]
      split <;> simp
  | delete =>
    obtain ⟨hm, hk⟩ := hop
    obtain ⟨ref, rfl⟩ := Option.isSome_iff_exists.mp hm
    have hl := h.plain_entries ref
    refine ⟨h.set ref ?_ ?_, rfl, rfl, fun _ h => by cases h⟩
    · exact fun e he => hl e (Entries.mem_of_mem_erase he)
    · simp only [step, h.entries ref, Entries.erase_relabel hf hk hl]
  | clear =>
    obtain ⟨ref, rfl, hself⟩ := hop
    have hempty : Entries.eraseAll Key.same (entriesOf s.maps ref) = [] := by
      rw [h.entries ref]
      refine Entries.eraseAll_eq_nil ?_
      intro e he
      obtain ⟨e', he', rfl⟩ := List.mem_map.mp he
      have hplain := h.plain_entries ref e' he'
      exact (hf e'.1 e'.1 hplain hplain).trans (hself e' he')
    refine ⟨h.set ref (fun e he => by cases he) ?_, rfl, rfl, fun _ h => by cases h⟩
    simp only [step, hempty]
    rfl
  | len =>
    obtain ⟨ref, rfl⟩ := Option.isSome_iff_exists.mp hop
    refine ⟨h, ?_, rfl, fun _ h => by cases h⟩
    simp [step, goStep, h.entries ref, Entries.relabel]

theorem goRun_cons {g : GoState} {site : String} {op : Op} {ops : List (String × Op)}
    (h : ∀ msg, (goStep g op).2 ≠ .panic msg) :
    (goRun g ((site, op) :: ops)).2 = (goStep g op).2 :: (goRun (goStep g op).1 ops).2 := by
  conv_lhs => unfold goRun
  split
  · rename_i g' msg heq
    exact absurd (congrArg Prod.snd heq) (h msg)
  · rename_i heq
    rw [heq]

/-- The run lemma. -/
theorem run_sim {pr : Printer} (gid : Gid) : ∀ (ops : List (String × Op)) {s : State} {g : GoState},
    Sim pr s g → RegularRun g ops →
      (run pr gid s ops).2 = (goRun g ops).2 ∧
        (run pr gid s ops).1.violations.filter Violation.isNilWrite =
          s.violations.filter Violation.isNilWrite := by
  intro ops
  induction ops with
  | nil => exact fun _ _ => ⟨rfl, rfl⟩
  | cons x ops ih =>
    intro s g h hreg
    obtain ⟨site, op⟩ := x
    obtain ⟨hop, hops⟩ := hreg
    obtain ⟨hsim, hres, hviol, hpanic⟩ := step_sim gid site h hop
    obtain ⟨hrest, hviolRest⟩ := ih hsim hops
    rw [goRun_cons hpanic]
    exact ⟨congrArg₂ List.cons hres hrest, hviolRest.trans hviol⟩

/-- **Maps are Go's maps** for every sequence of regular operations: the
results are the same, and no write to a nil map is recorded. -/
theorem maps_agree (pr : Printer) (gid : Gid) (ops : List (String × Op))
    (hreg : RegularRun [] ops) :
    (run pr gid {} ops).2 = (goRun [] ops).2 ∧
      ∀ v ∈ (run pr gid {} ops).1.violations, v.isNilWrite = false := by
  have hinit : Sim pr {} [] := ⟨rfl, fun m hm => by cases hm⟩
  obtain ⟨hres, hviol⟩ := run_sim gid ops hinit hreg
  refine ⟨hres, ?_⟩
  intro v hv
  by_contra hnil
  have hmem : v ∈ (run pr gid {} ops).1.violations.filter Violation.isNilWrite :=
    List.mem_filter.mpr ⟨hv, by simpa using hnil⟩
  rw [hviol] at hmem
  cases hmem

/-- `m := map[string]int{}; m["a"] = 1; m["a"]; len(m); delete(m, "a"); len(m)`. -/
def countWord : List (String × Op) :=
  [("", .make none), ("", .assign (some 0) (.str "a") (.int 1)),
    ("", .lookup (some 0) (.str "a") (.basic .int) false), ("", .len (some 0)),
    ("", .delete (some 0) (.str "a")), ("", .len (some 0))]

/-- Scalars other than complex numbers are not printed. -/
def noPrinter : Printer where
  floatText _ := ""
  complexText _ _ := ""
  typeString _ := ""
  typeAddr _ := 0

theorem maps_agree_countWord :
    (run noPrinter 1 {} countWord).2 = (goRun [] countWord).2 ∧
      (goRun [] countWord).2 = [.map 0, .none, .value (.int 1), .value (.int 1), .none,
        .value (.int 0)] :=
  ⟨(maps_agree noPrinter 1 countWord ⟨trivial, ⟨rfl, trivial⟩, ⟨0, rfl, trivial, rfl⟩, rfl, ⟨rfl, trivial⟩,
    rfl, trivial⟩).1, rfl⟩

/-- A NaN. -/
def nan : Raw := .float 0x7ff8000000000001

/-- **What is not there.** An absent key, a nil map, and a NaN. -/
theorem maps_differ :
    -- an absent element is unknown
    ((run noPrinter 1 {} [("", .make none), ("", .lookup (some 0) (.int 5) (.basic .int) false)]).2 =
        [.map 0, .value .nil] ∧
      (goRun [] [("", .make none), ("", .lookup (some 0) (.int 5) (.basic .int) false)]).2 =
        [.map 0, .value (.int 0)]) ∧
    -- delete and clear of a nil map are reported
    (run noPrinter 1 {} [("f:3", .delete none (.int 5)), ("f:4", .clear none)]).1.violations =
      [.nilMapWrite "f:3" 1, .nilMapWrite "f:4" 1] ∧
    -- the length of a nil map is unknown
    (run noPrinter 1 {} [("", .len none)]).2 = [.value .nil] ∧
    (goRun [] [("", .len none)]).2 = [.value (.int 0)] ∧
    -- a NaN stays
    ((run noPrinter 1 {} [("", .make none), ("", .assign (some 0) nan (.int 1)), ("", .clear (some 0)),
        ("", .len (some 0))]).2 = [.map 0, .none, .none, .value (.int 1)] ∧
      (goRun [] [("", .make none), ("", .assign (some 0) nan (.int 1)), ("", .clear (some 0)),
        ("", .len (some 0))]).2 = [.map 0, .none, .none, .value (.int 0)]) := by
  exact ⟨⟨rfl, rfl⟩, rfl, rfl, rfl, rfl, rfl⟩

end Giri.Maps
