/-
Giri.Lib.Causal — vector clocks never order more than synchronization does.

Processes synchronize by publishing snapshots of their clocks and by merging
snapshots that others have published. A HISTORY lists what they did. Every
entry says who did it, which process it started (if any), and which earlier
entries it acquired from. From this alone the causal order is defined: the
transitive closure of program order, of "starts" and of "acquires from"
(`HB`). Clocks have no part in its definition.

`Inv` relates the clocks to that order. Its heart is that no clock, held by
a process or stored in a snapshot, has caught up with a process's own
component unless there is a causal path. There is one rule for each thing a
process can do:

* `Inv.entry`  — acquire stored snapshots, and then perhaps publish and tick,
  or start a process, which inherits the clock;
* `Inv.access` — do something whose clock is recorded.

`Inv.ordered` is what a race detector relies on: if the clock recorded at an
access is contained in the one recorded at an access of another process,
then the first is causally before the second.

`Carried` is the other direction, for one clock of one process: it is in the
clock of every process that is causally after what this one did since
(`Carried.entry`).
-/
import Mathlib.Order.MinMax
import Mathlib.Order.Nat
import Giri.Lib.History

namespace Causal

open History

variable {P : Type}

/-- What the causal order reads of an entry of a history. `obs` is the clock
recorded at an access. -/
structure Entry (P : Type) where
  proc : P
  fork : Option P
  src : List Nat
  obs : Option (P → Nat)

/-- A stored clock, with the entries it was published by. -/
structure Snapshot (P : Type) where
  clock : P → Nat
  src : List Nat

/-- Entry `i` is directly before entry `j`. -/
def Edge (h : List (Entry P)) (i j : Nat) : Prop :=
  ∃ a b, h[i]? = some a ∧ h[j]? = some b ∧ i < j ∧
    (a.proc = b.proc ∨ a.fork = some b.proc ∨ i ∈ b.src)

/-- Causally before. -/
def HB (h : List (Entry P)) : Nat → Nat → Prop := Relation.TransGen (Edge h)

/-- Causally before, or the same entry. -/
def HBeq (h : List (Entry P)) : Nat → Nat → Prop := Relation.ReflTransGen (Edge h)

/-- What process `p` does next is causally after entry `i`. -/
def Reaches (h : List (Entry P)) (i : Nat) (p : P) : Prop :=
  ∃ j e, h[j]? = some e ∧ (e.proc = p ∨ e.fork = some p) ∧ HBeq h i j

/-! ## §1. Histories grow at the end -/

section Grow

variable {h : List (Entry P)} {e : Entry P} {i j : Nat}

theorem Edge.snoc (hij : Edge h i j) : Edge (h ++ [e]) i j := by
  obtain ⟨a, b, ha, hb, hlt, hor⟩ := hij
  exact ⟨a, b, getElem?_snoc ha, getElem?_snoc hb, hlt, hor⟩

theorem Edge.lt (hij : Edge h i j) : i < j := by
  obtain ⟨-, -, -, -, hlt, -⟩ := hij
  exact hlt

theorem Edge.of_snoc (hij : Edge (h ++ [e]) i j) (hj : j < h.length) : Edge h i j := by
  obtain ⟨a, b, ha, hb, hlt, hor⟩ := hij
  rw [List.getElem?_append_left (hlt.trans hj)] at ha
  rw [List.getElem?_append_left hj] at hb
  exact ⟨a, b, ha, hb, hlt, hor⟩

/-- The new entry is before no other. -/
theorem HBeq.of_snoc (hij : HBeq (h ++ [e]) i j) (hj : j < h.length) : HBeq h i j := by
  induction hij with
  | refl => exact .refl
  | tail _ hedge ih => exact (ih (hedge.lt.trans hj)).tail (hedge.of_snoc hj)

theorem HB.snoc (hij : HB h i j) : HB (h ++ [e]) i j :=
  Relation.TransGen.mono (fun _ _ => Edge.snoc) _ _ hij

theorem HBeq.le (hij : HBeq h i j) : i ≤ j := by
  induction hij with
  | refl => exact le_refl _
  | tail _ hedge ih => exact ih.trans hedge.lt.le

theorem HBeq.snoc (hij : HBeq h i j) : HBeq (h ++ [e]) i j :=
  Relation.ReflTransGen.mono (fun _ _ => Edge.snoc) _ _ hij

theorem Reaches.snoc {p : P} (hr : Reaches h i p) : Reaches (h ++ [e]) i p := by
  obtain ⟨j, a, ha, hp, hij⟩ := hr
  exact ⟨j, a, getElem?_snoc ha, hp, hij.snoc⟩

/-- What reaches a process is before the next entry of that process. -/
theorem Reaches.hb_last (hr : Reaches h i e.proc) : HB (h ++ [e]) i h.length := by
  obtain ⟨j, a, ha, hp, hij⟩ := hr
  obtain ⟨hlt, -⟩ := List.getElem?_eq_some_iff.mp ha
  refine Relation.TransGen.tail' hij.snoc ⟨a, e, getElem?_snoc ha, getElem?_last, hlt, ?_⟩
  exact hp.elim .inl fun hf => .inr (.inl hf)

/-- What is before an entry acquired from is before the acquiring entry. -/
theorem HBeq.hb_last_of_src {k : Nat} (hik : HBeq h i k) (hlt : k < h.length)
    (hsrc : k ∈ e.src) : HB (h ++ [e]) i h.length := by
  refine Relation.TransGen.tail' hik.snoc
    ⟨h[k], e, getElem?_snoc (List.getElem?_eq_getElem hlt), getElem?_last, hlt, ?_⟩
  exact .inr (.inr hsrc)

/-- What is before the last entry reaches its process, and the process it
starts. -/
theorem HB.reaches {p : P} (hi : HB (h ++ [e]) i h.length)
    (hp : e.proc = p ∨ e.fork = some p) : Reaches (h ++ [e]) i p :=
  ⟨h.length, e, getElem?_last, hp, hi.to_reflTransGen⟩

theorem Reaches.self {a : Entry P} (ha : h[i]? = some a) : Reaches h i a.proc :=
  ⟨i, a, ha, .inl rfl, .refl⟩

end Grow

/-! ## §2. The invariant -/

/-- Entry `i` of the history is an access of `p` at clock `c`. -/
def Access (h : List (Entry P)) (i : Nat) (p : P) (c : P → Nat) : Prop :=
  ∃ e, h[i]? = some e ∧ e.proc = p ∧ e.obs = some c

/-- How the clocks of the processes and the stored snapshots relate to the
history. -/
structure Inv (clk : P → P → Nat) (stored : Set (Snapshot P)) (h : List (Entry P)) : Prop where
  /-- Only a process itself has its own component at its current value. -/
  own_lt : ∀ p q, p ≠ q → clk q p < clk p p
  /-- Nor has any stored snapshot. -/
  stored_lt : ∀ st ∈ stored, ∀ p, st.clock p < clk p p
  src_lt : ∀ st ∈ stored, ∀ k ∈ st.src, k < h.length
  /-- A clock that has an access's own component is behind a causal path. -/
  reach : ∀ i p c, Access h i p c → ∀ q, c p ≤ clk q p → Reaches h i q
  /-- A snapshot that has it was published after the access. -/
  reach_stored : ∀ i p c, Access h i p c → ∀ st ∈ stored, c p ≤ st.clock p →
    ∃ k ∈ st.src, HBeq h i k
  access_lt : ∀ i p c, Access h i p c → ∀ q, q ≠ p → c q < clk q q
  /-- **Clocks order no more than the causal order does.** -/
  ordered : ∀ i p c j q d, Access h i p c → Access h j q d → p ≠ q → c p ≤ d p → HB h i j

section Access

variable {h : List (Entry P)} {e : Entry P} {i : Nat} {p : P} {c : P → Nat}

theorem Access.reaches (ha : Access h i p c) : Reaches h i p := by
  obtain ⟨e, he, rfl, -⟩ := ha
  exact Reaches.self he

theorem of_access_snoc (ha : Access (h ++ [e]) i p c) :
    Access h i p c ∨ (i = h.length ∧ e.proc = p ∧ e.obs = some c) := by
  obtain ⟨a, hi, hp, hc⟩ := ha
  rcases of_getElem?_snoc hi with hi | ⟨rfl, rfl⟩
  · exact .inl ⟨a, hi, hp, hc⟩
  · exact .inr ⟨rfl, hp, hc⟩

/-- An entry that records no clock is not an access. -/
theorem of_access_snoc_none (he : e.obs = none) (ha : Access (h ++ [e]) i p c) :
    Access h i p c := by
  rcases of_access_snoc ha with ha | ⟨-, -, hc⟩
  · exact ha
  · rw [he] at hc; cases hc

end Access

/-- At the start: every process has its own component, and nothing else. -/
theorem Inv.init {clk : P → P → Nat} (hown : ∀ p q, p ≠ q → clk q p < clk p p) :
    Inv clk ∅ [] where
  own_lt := hown
  stored_lt := by intro st hst; cases hst
  src_lt := by intro st hst; cases hst
  reach := by rintro i p c ⟨e, he, -⟩; simp at he
  reach_stored := by rintro i p c ⟨e, he, -⟩; simp at he
  access_lt := by rintro i p c ⟨e, he, -⟩; simp at he
  ordered := by rintro i p c j q d ⟨e, he, -⟩; simp at he

/-- Snapshots may be dropped. -/
theorem Inv.mono {clk : P → P → Nat} {stored stored' : Set (Snapshot P)} {h : List (Entry P)}
    (hI : Inv clk stored h) (hsub : stored' ⊆ stored) : Inv clk stored' h where
  own_lt := hI.own_lt
  stored_lt st hst := hI.stored_lt st (hsub hst)
  src_lt st hst := hI.src_lt st (hsub hst)
  reach := hI.reach
  reach_stored i p c ha st hst := hI.reach_stored i p c ha st (hsub hst)
  access_lt := hI.access_lt
  ordered := hI.ordered

section Rules

variable {clk clk' : P → P → Nat} {stored stored' : Set (Snapshot P)} {h : List (Entry P)}
  {e : Entry P} {acq : List (Snapshot P)} {m c : P → Nat} {i : Nat} {p q : P}

/-! ## §3. Acquiring, publishing and starting a process -/

/-- `m` is the clock of `g` after it has merged the snapshots `acq`. -/
structure Merged (g : P) (clk : P → P → Nat) (acq : List (Snapshot P)) (m : P → Nat) :
    Prop where
  le : ∀ x, clk g x ≤ m x
  from_acq : ∀ x, m x ≤ clk g x ∨ ∃ st ∈ acq, m x ≤ st.clock x

/-- `st` publishes the clock `m` at entry `n`, alone or joined into stored
snapshots. -/
structure Published (stored : Set (Snapshot P)) (m : P → Nat) (n : Nat) (st : Snapshot P) :
    Prop where
  mem : n ∈ st.src
  old : ∀ k ∈ st.src, k = n ∨ ∃ o ∈ stored, k ∈ o.src
  clock : ∀ x, st.clock x ≤ m x ∨ ∃ o ∈ stored, o.src ⊆ st.src ∧ st.clock x ≤ o.clock x

/-- The clocks after entry `e`, which acquires `acq`. Its process has `m`, or
`m` with its own component advanced, as it has if it starts a process; that
one inherits `m`. -/
structure Advance (e : Entry P) (acq : List (Snapshot P)) (m : P → Nat) (clk clk' : P → P → Nat) :
    Prop where
  merged : Merged e.proc clk acq m
  rest : ∀ x, x ≠ e.proc → clk' e.proc x = m x
  self : m e.proc ≤ clk' e.proc e.proc
  other : ∀ q, q ≠ e.proc → clk' q = clk q ∨ e.fork = some q ∧
    m e.proc < clk' e.proc e.proc ∧ ∀ x, clk' q x = max (clk q x) (m x)

theorem Advance.le (hA : Advance e acq m clk clk') (p : P) : clk p p ≤ clk' p p := by
  by_cases hp : p = e.proc
  · subst hp; exact (hA.merged.le _).trans hA.self
  · rcases hA.other p hp with heq | ⟨-, -, hchild⟩
    · rw [heq]
    · rw [hchild]; exact le_max_left _ _

/-- What a merged clock has is before the entry that merged it. -/
theorem Inv.hb_of_le_merged (hI : Inv clk stored h) (hm : Merged e.proc clk acq m)
    (hacq : ∀ st ∈ acq, st ∈ stored ∧ st.src ⊆ e.src) (ha : Access h i p c) (hle : c p ≤ m p) :
    HB (h ++ [e]) i h.length := by
  rcases hm.from_acq p with hclk | ⟨st, hst, hclk⟩
  · exact (hI.reach i p c ha e.proc (hle.trans hclk)).hb_last
  · obtain ⟨hmem, hsub⟩ := hacq st hst
    obtain ⟨k, hk, hik⟩ := hI.reach_stored i p c ha st hmem (hle.trans hclk)
    exact hik.hb_last_of_src (hI.src_lt st hmem k hk) (hsub hk)

section Advance

variable (hI : Inv clk stored h) (hA : Advance e acq m clk clk')
  (hacq : ∀ st ∈ acq, st ∈ stored ∧ st.src ⊆ e.src)

include hI hA hacq

/-- Merging stored snapshots brings no other process's component to its
current value. -/
theorem Inv.merged_lt (hp : p ≠ e.proc) : m p < clk' p p := by
  refine lt_of_lt_of_le ?_ (hA.le p)
  rcases hA.merged.from_acq p with hle | ⟨st, hst, hle⟩
  · exact hle.trans_lt (hI.own_lt p e.proc hp)
  · exact hle.trans_lt (hI.stored_lt st (hacq st hst).1 p)

theorem Inv.own_lt_advance (hpq : p ≠ q) : clk' q p < clk' p p := by
  have hold : clk q p < clk' p p := (hI.own_lt p q hpq).trans_le (hA.le p)
  by_cases hq : q = e.proc
  · subst hq
    rw [hA.rest p hpq]
    exact hI.merged_lt hA hacq hpq
  · rcases hA.other q hq with heq | ⟨-, htick, hchild⟩
    · rwa [heq]
    · rw [hchild]
      refine max_lt hold ?_
      by_cases hp : p = e.proc
      · subst hp; exact htick
      · exact hI.merged_lt hA hacq hp

theorem Inv.reach_advance (ha : Access h i p c) (hle : c p ≤ clk' q p) :
    Reaches (h ++ [e]) i q := by
  have hlast := hI.hb_of_le_merged hA.merged hacq ha
  by_cases hq : q = e.proc
  · subst hq
    by_cases hp : p = e.proc
    · -- the process's own accesses reach it whatever the clocks say
      subst hp; exact ha.reaches.snoc
    · rw [hA.rest p hp] at hle
      exact (hlast hle).reaches (.inl rfl)
  · rcases hA.other q hq with heq | ⟨hfork, -, hchild⟩
    · rw [heq] at hle
      exact (hI.reach i p c ha q hle).snoc
    · rw [hchild, le_max_iff] at hle
      rcases hle with hle | hle
      · exact (hI.reach i p c ha q hle).snoc
      · exact (hlast hle).reaches (.inr hfork)

variable {st : Snapshot P} (hpub : Published stored m h.length st)

include hpub

theorem Inv.published_lt (htick : m e.proc < clk' e.proc e.proc) (p : P) :
    st.clock p < clk' p p := by
  rcases hpub.clock p with hle | ⟨o, ho, -, hle⟩
  · by_cases hp : p = e.proc
    · subst hp; exact hle.trans_lt htick
    · exact hle.trans_lt (hI.merged_lt hA hacq hp)
  · exact (hle.trans_lt (hI.stored_lt o ho p)).trans_le (hA.le p)

theorem Inv.reach_published (ha : Access h i p c) (hle : c p ≤ st.clock p) :
    ∃ k ∈ st.src, HBeq (h ++ [e]) i k := by
  rcases hpub.clock p with hm | ⟨o, ho, hsub, hle'⟩
  · exact ⟨h.length, hpub.mem,
      (hI.hb_of_le_merged hA.merged hacq ha (hle.trans hm)).to_reflTransGen⟩
  · obtain ⟨k, hk, hik⟩ := hI.reach_stored i p c ha o ho (hle.trans hle')
    exact ⟨k, hsub hk, hik.snoc⟩

end Advance

/-- A process acquires the stored snapshots `acq`. If its own component
advances it may publish its clock from before. -/
theorem Inv.entry (hI : Inv clk stored h) (acq : List (Snapshot P)) (m : P → Nat)
    (hobs : e.obs = none) (hA : Advance e acq m clk clk')
    (hacq : ∀ st ∈ acq, st ∈ stored ∧ st.src ⊆ e.src)
    (hstored : ∀ st ∈ stored', st ∈ stored ∨
      (m e.proc < clk' e.proc e.proc ∧ Published stored m h.length st)) :
    Inv clk' stored' (h ++ [e]) := by
  refine ⟨fun p q => hI.own_lt_advance hA hacq, ?_, ?_,
    fun i p c ha q => hI.reach_advance hA hacq (of_access_snoc_none hobs ha), ?_, ?_, ?_⟩
  · intro st hst p
    rcases hstored st hst with hold | ⟨htick, hpub⟩
    · exact (hI.stored_lt st hold p).trans_le (hA.le p)
    · exact hI.published_lt hA hacq hpub htick p
  · intro st hst k hk
    rw [List.length_append, List.length_singleton]
    rcases hstored st hst with hold | ⟨-, hpub⟩
    · exact Nat.lt_succ_of_lt (hI.src_lt st hold k hk)
    · rcases hpub.old k hk with rfl | ⟨o, ho, hko⟩
      · exact Nat.lt_succ_self _
      · exact Nat.lt_succ_of_lt (hI.src_lt o ho k hko)
  · intro i p c ha st hst hle
    have ha := of_access_snoc_none hobs ha
    rcases hstored st hst with hst | ⟨-, hpub⟩
    · obtain ⟨k, hk, hik⟩ := hI.reach_stored i p c ha st hst hle
      exact ⟨k, hk, hik.snoc⟩
    · exact hI.reach_published hA hacq hpub ha hle
  · intro i p c ha q hq
    exact (hI.access_lt i p c (of_access_snoc_none hobs ha) q hq).trans_le (hA.le q)
  · intro i p c j q d ha hb hpq hle
    have ha := of_access_snoc_none hobs ha
    have hb := of_access_snoc_none hobs hb
    exact (hI.ordered i p c j q d ha hb hpq hle).snoc

/-! ## §4. Accesses -/

/-- A process's current clock is recorded. -/
theorem Inv.access (hI : Inv clk stored h) (hobs : e.obs = some (clk e.proc)) :
    Inv clk stored (h ++ [e]) := by
  refine ⟨hI.own_lt, hI.stored_lt, ?_, ?_, ?_, ?_, ?_⟩
  · intro st hst k hk
    rw [List.length_append, List.length_singleton]
    exact Nat.lt_succ_of_lt (hI.src_lt st hst k hk)
  · intro i p c ha q hle
    rcases of_access_snoc ha with ha | ⟨rfl, rfl, hc⟩
    · exact (hI.reach i p c ha q hle).snoc
    · cases hobs.symm.trans hc
      -- only the process itself has its own component at this value
      by_cases hq : e.proc = q
      · exact hq ▸ Reaches.self getElem?_last
      · exact absurd hle (not_le_of_gt (hI.own_lt _ q hq))
  · intro i p c ha st hst hle
    rcases of_access_snoc ha with ha | ⟨rfl, rfl, hc⟩
    · obtain ⟨k, hk, hik⟩ := hI.reach_stored i p c ha st hst hle
      exact ⟨k, hk, hik.snoc⟩
    · cases hobs.symm.trans hc
      exact absurd hle (not_le_of_gt (hI.stored_lt st hst _))
  · intro i p c ha q hq
    rcases of_access_snoc ha with ha | ⟨rfl, rfl, hc⟩
    · exact hI.access_lt i p c ha q hq
    · cases hobs.symm.trans hc
      exact hI.own_lt q _ hq
  · intro i p c j q d ha hb hpq hle
    rcases of_access_snoc ha with ha | ⟨rfl, rfl, hc⟩
    · rcases of_access_snoc hb with hb | ⟨rfl, rfl, hd⟩
      · exact (hI.ordered i p c j q d ha hb hpq hle).snoc
      · cases hobs.symm.trans hd
        exact (hI.reach i p c ha _ hle).hb_last
    · rcases of_access_snoc hb with hb | ⟨rfl, rfl, hd⟩
      · cases hobs.symm.trans hc
        -- an earlier access can't have a component that is current now
        exact absurd hle (not_le_of_gt (hI.access_lt j q d hb _ hpq))
      · exact absurd rfl hpq

/-! ## §5. What the causal order carries -/

/-- Entry `i` is one of process `p`, from the `n`-th entry on. -/
def Since (h : List (Entry P)) (p : P) (n i : Nat) : Prop :=
  n ≤ i ∧ ∃ a, h[i]? = some a ∧ a.proc = p

/-- Process `q` is `p`, or what it does next is causally after an entry of
`p` from the `n`-th on. -/
def Knows (h : List (Entry P)) (p : P) (n : Nat) (q : P) : Prop :=
  q = p ∨ ∃ i, Since h p n i ∧ Reaches h i q

/-- The clock `c` that `p` had before entry `n` is carried along the causal
order. -/
structure Carried (p : P) (n : Nat) (c : P → Nat) (clk : P → P → Nat)
    (stored : Set (Snapshot P)) (h : List (Entry P)) : Prop where
  clock : ∀ q, Knows h p n q → c ≤ clk q
  stored : ∀ st ∈ stored, ∀ k ∈ st.src, ∀ i, Since h p n i → HBeq h i k → c ≤ st.clock

variable {n : Nat}

theorem Since.lt (hi : Since h p n i) : i < h.length := by
  obtain ⟨-, a, ha, -⟩ := hi
  exact lt_of_getElem? ha

/-- A process's clock, as yet. -/
theorem Carried.start (clk : P → P → Nat) (stored : Set (Snapshot P)) (h : List (Entry P)) (p : P) :
    Carried p h.length (clk p) clk stored h := by
  have hnone : ∀ i, ¬ Since h p h.length i := fun i hi => absurd hi.lt (Nat.not_lt.mpr hi.1)
  refine ⟨?_, fun st _ k _ i hi => absurd hi (hnone i)⟩
  rintro q (rfl | ⟨i, hi, -⟩)
  · exact le_refl _
  · exact absurd hi (hnone i)

theorem Carried.mono (hC : Carried p n c clk stored h) (hsub : stored' ⊆ stored) :
    Carried p n c clk stored' h :=
  ⟨hC.clock, fun st hst => hC.stored st (hsub hst)⟩

theorem Since.of_snoc (hi : Since (h ++ [e]) p n i) :
    Since h p n i ∨ i = h.length ∧ e.proc = p := by
  obtain ⟨hle, a, ha, hp⟩ := hi
  rcases of_getElem?_snoc ha with ha | ⟨rfl, rfl⟩
  · exact .inl ⟨hle, a, ha, hp⟩
  · exact .inr ⟨rfl, hp⟩

/-- What is behind the new entry is in the clock `m` that its process has
when it has merged what it acquires. -/
theorem Carried.le_merged (hC : Carried p n c clk stored h) (hm : clk e.proc ≤ m)
    (hacq : ∀ k ∈ e.src, ∃ st ∈ stored, k ∈ st.src ∧ st.clock ≤ m)
    (hi : Since (h ++ [e]) p n i) (hij : HBeq (h ++ [e]) i h.length) : c ≤ m := by
  rcases hi.of_snoc with hi | ⟨-, rfl⟩
  · rcases Relation.ReflTransGen.cases_tail hij with heq | ⟨k, hik, x, y, hx, hy, hlt, hor⟩
    · exact absurd heq hi.lt.ne'
    · rw [List.getElem?_append_left hlt] at hx
      cases Option.some.inj (hy.symm.trans getElem?_last)
      have hik := HBeq.of_snoc hik hlt
      rcases hor with hx' | hx' | hsrc
      · exact (hC.clock _ (.inr ⟨i, hi, k, x, hx, .inl hx', hik⟩)).trans hm
      · exact (hC.clock _ (.inr ⟨i, hi, k, x, hx, .inr hx', hik⟩)).trans hm
      · obtain ⟨st, hst, hk, hle⟩ := hacq k hsrc
        exact (hC.stored st hst k hk i hi hik).trans hle
  · exact (hC.clock _ (.inl rfl)).trans hm

/-- A process merges what it acquires into its clock, and hands the result
on: to itself, to the process it starts, and to what it publishes. -/
theorem Carried.entry (hC : Carried p n c clk stored h)
    (hlt : ∀ st ∈ stored, ∀ k ∈ st.src, k < h.length) (hm : clk e.proc ≤ m)
    (hacq : ∀ k ∈ e.src, ∃ st ∈ stored, k ∈ st.src ∧ st.clock ≤ m)
    (hgrow : ∀ q, clk q ≤ clk' q) (hself : m ≤ clk' e.proc)
    (hfork : ∀ child, e.fork = some child → m ≤ clk' child)
    (hstored : ∀ st ∈ stored', st ∈ stored ∨ (m ≤ st.clock ∧
      ∀ k ∈ st.src, k = h.length ∨ ∃ o ∈ stored, k ∈ o.src ∧ o.clock ≤ st.clock)) :
    Carried p n c clk' stored' (h ++ [e]) := by
  have hlast := fun {i} => hC.le_merged (i := i) hm hacq
  have hold : ∀ st ∈ stored, ∀ k ∈ st.src, ∀ i, Since (h ++ [e]) p n i → HBeq (h ++ [e]) i k →
      c ≤ st.clock := by
    intro st hst k hk i hi hik
    have hkl := hlt st hst k hk
    have hik := hik.of_snoc hkl
    rcases hi.of_snoc with hi | ⟨rfl, -⟩
    · exact hC.stored st hst k hk i hi hik
    · exact absurd hik.le (Nat.not_le.mpr hkl)
  constructor
  · rintro q (rfl | ⟨i, hi, j, b, hb, hor, hij⟩)
    · exact (hC.clock _ (.inl rfl)).trans (hgrow _)
    · rcases of_getElem?_snoc hb with hb | ⟨rfl, rfl⟩
      · have hj := lt_of_getElem? hb
        have hij := hij.of_snoc hj
        rcases hi.of_snoc with hi | ⟨rfl, -⟩
        · exact (hC.clock q (.inr ⟨i, hi, j, b, hb, hor, hij⟩)).trans (hgrow q)
        · exact absurd hij.le (Nat.not_le.mpr hj)
      · rcases hor with rfl | hf
        · exact (hlast hi hij).trans hself
        · exact (hlast hi hij).trans (hfork q hf)
  · intro st hst k hk i hi hik
    rcases hstored st hst with hst | ⟨hle, hsrc⟩
    · exact hold st hst k hk i hi hik
    · rcases hsrc k hk with rfl | ⟨o, ho, hko, hle⟩
      · exact (hlast hi hik).trans hle
      · exact (hold o ho k hko i hi hik).trans hle

end Rules

end Causal
