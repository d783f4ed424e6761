import ValueHeap.Proofs.Effects
import ValueHeap.Proofs.Rounding

/-!
# Documents in and out of an arena

Building a document and reading the value back gives the document again, up to the whole numbers
that do not fit 32 bits: these are built as floats. Both directions recurse on the levels that are
left, so a document can be read exactly as deep as it can be built.

* `Document.norm`: what is read back; it is the document itself where all whole numbers fit
  (`Document.norm_eq_self`);
* `exportSlot_succ`: the document of a value, by its payload and the documents of its children; so
  it stays while they stay (`exportSlot_within`, `exportSlot_kept`);
* **`exportDocument_importDocument`**: the value that was built reads as the normal form;
* **`importDocument_accepted`**: what was read can be built wherever the tracker accepts it.
-/

namespace ValueHeap

/-! ## 1. Normal forms -/

/-- The whole number fits 32 bits. -/
def FitsWord (n : Int) : Prop := Int32.minValue.toInt ≤ n ∧ n ≤ Int32.maxValue.toInt

instance (n : Int) : Decidable (FitsWord n) := inferInstanceAs (Decidable (_ ∧ _))

theorem fitsWord_toInt (n : Int32) : FitsWord n.toInt := ⟨n.minValue_le_toInt, n.toInt_le⟩

theorem FitsWord.toInt_ofInt {n : Int} (h : FitsWord n) : (Int32.ofInt n).toInt = n := by
  obtain ⟨h1, h2⟩ := h
  exact Int32.toInt_ofInt_of_le h1 (Int.lt_add_one_of_le h2)

namespace Document

theorem sizeOf_member {m : String × Document} {members : List (String × Document)}
    (h : m ∈ members) : sizeOf m.2 < 1 + sizeOf members := by
  have := List.sizeOf_lt_of_mem h
  have : sizeOf m = 1 + sizeOf m.1 + sizeOf m.2 := rfl
  omega

/-- The document with every whole number that does not fit 32 bits as a float. -/
def norm : Document → Document
  | null => null
  | bool flag => bool flag
  | string text => string text
  | float x => float x
  | integer n => if FitsWord n then integer n else float (Double.ofInt n)
  | array items => array (items.map norm)
  | object members => object (members.map fun m => (m.1, norm m.2))
decreasing_by
  · decreasing_tactic
  · simpa using sizeOf_member ‹_ ∈ members›

/-- The sizes of the slots that a document takes, in the order in which they are filled. -/
def footprints : Document → List Nat
  | null => []
  | bool flag => [(Payload.bool flag).footprint]
  | integer n => [(Arena.wholeNumber n).footprint]
  | float x => [(Payload.float x).footprint]
  | string text => [(Payload.string text).footprint]
  | array items =>
    items.flatMap footprints ++
      [Payload.footprintUnits.value + Payload.footprintUnits.child * items.length]
  | object members =>
    (Payload.dictionary .empty).footprint :: members.flatMap fun m => footprints m.2
decreasing_by
  · decreasing_tactic
  · simpa using sizeOf_member ‹_ ∈ members›

/-- The document occurs in the other one, or is that one. -/
inductive Occurs : Document → Document → Prop
  | here (d : Document) : Occurs d d
  | item {d e : Document} {items : List Document} : e ∈ items → Occurs d e →
      Occurs d (array items)
  | member {d : Document} {m : String × Document} {members : List (String × Document)} :
      m ∈ members → Occurs d m.2 → Occurs d (object members)

/-- A document of whole numbers of 64 bits, finite floats, and objects with distinct names. -/
inductive Proper : Document → Prop
  | null : Proper null
  | bool (flag : Bool) : Proper (bool flag)
  | integer {n : Int} : -2 ^ 63 ≤ n → n < 2 ^ 64 → Proper (integer n)
  | float {x : Double} : x.isFinite → Proper (float x)
  | string (text : String) : Proper (string text)
  | array {items : List Document} : (∀ d ∈ items, Proper d) → Proper (array items)
  | object {members : List (String × Document)} : (members.map (·.1)).Nodup →
      (∀ m ∈ members, Proper m.2) → Proper (object members)

/-- A document whose whole numbers all fit 32 bits is its own normal form. -/
theorem norm_eq_self {d : Document} (h : ∀ n, Occurs (integer n) d → FitsWord n) :
    d.norm = d := by
  induction d using norm.induct with
  | case1 | case2 | case3 | case4 => rw [norm]
  | case5 n hn => rw [norm, if_pos hn]
  | case6 n hn => exact absurd (h n (.here _)) hn
  | case7 items ih =>
    rw [norm, List.map_congr_left fun d hd => ih d hd fun n hn => h n (.item hd hn), List.map_id']
  | case8 members ih =>
    have hm : ∀ m ∈ members, (m.1, norm m.2) = m := fun m hm => by
      rw [ih m hm fun n hn => h n (.member hm hn)]
    rw [norm, List.map_congr_left hm, List.map_id']

/-- A document that values can have: of at most so many levels, without a null, and with whole
    numbers of 32 bits only. -/
inductive Exported : Nat → Document → Prop
  | bool {levels : Nat} (flag : Bool) : Exported (levels + 1) (bool flag)
  | integer {levels : Nat} {n : Int} : FitsWord n → Exported (levels + 1) (integer n)
  | float {levels : Nat} {x : Double} : x.isFinite → Exported (levels + 1) (float x)
  | string {levels : Nat} (text : String) : Exported (levels + 1) (string text)
  | array {levels : Nat} {items : List Document} : (∀ d ∈ items, Exported levels d) →
      Exported (levels + 1) (array items)
  | object {levels : Nat} {members : List (String × Document)} : (members.map (·.1)).Nodup →
      (∀ m ∈ members, Exported levels m.2) → Exported (levels + 1) (object members)

theorem Exported.proper {d : Document} {levels : Nat} (h : Exported levels d) : d.Proper := by
  induction h with
  | bool flag => exact .bool flag
  | integer h =>
    have hmin : Int32.minValue.toInt = -2 ^ 31 := rfl
    have hmax : Int32.maxValue.toInt = 2 ^ 31 - 1 := rfl
    obtain ⟨h1, h2⟩ := h
    exact .integer (by omega) (by omega)
  | float h => exact .float h
  | string text => exact .string text
  | array _ ih => exact .array ih
  | object h _ ih => exact .object h ih

theorem Exported.fits {d : Document} {n : Int} (ho : Occurs (.integer n) d) {levels : Nat}
    (h : Exported levels d) : FitsWord n := by
  generalize he : Document.integer n = e at ho
  induction ho generalizing levels with
  | here =>
    subst he
    cases h with
    | integer h => exact h
  | item hm _ ih =>
    cases h with
    | array h => exact ih (h _ hm)
  | member hm _ ih =>
    cases h with
    | object _ h => exact ih (h _ hm)

theorem Exported.norm {d : Document} {levels : Nat} (h : Exported levels d) : d.norm = d :=
  norm_eq_self fun _ ho => h.fits ho

end Document

namespace Arena

open Outcome Document

variable {a b c : Arena}

/-! ## 2. The document of a value -/

theorem map_eq_ok_iff {α β : Type} {f : α → β} {x : Except Failure α} {y : β} :
    x.map f = .ok y ↔ ∃ z, x = .ok z ∧ f z = y := by
  constructor
  · intro h
    cases x with
    | error e => cases h
    | ok z => exact ⟨z, rfl, Except.ok.inj h⟩
  · rintro ⟨z, rfl, rfl⟩
    rfl

theorem exportAll_eq_ok {α β : Type} {f : α → Except Failure β} {l : List α} {ys : List β} :
    exportAll f l = .ok ys ↔ List.Forall₂ (fun x y => f x = .ok y) l ys := by
  constructor
  · intro h
    induction l generalizing ys with
    | nil =>
      cases h
      exact .nil
    | cons x rest ih =>
      unfold exportAll at h
      cases hx : f x with
      | error e =>
        rw [hx] at h
        cases h
      | ok y =>
        rw [hx] at h
        cases hr : exportAll f rest with
        | error e =>
          rw [hr] at h
          cases h
        | ok zs =>
          rw [hr] at h
          cases h
          exact .cons hx (ih hr)
  · intro h
    induction h with
    | nil => rfl
    | cons hx _ ih =>
      unfold exportAll
      rw [hx, ih]

/-- A list of named slots and the members that are made of them. -/
def Members (child : Slot → Document → Prop) (pairs : List (String × Slot))
    (members : List (String × Document)) : Prop :=
  List.Forall₂ (fun p m => m.1 = p.1 ∧ child p.2 m.2) pairs members

/-- The document of a payload; `child` tells those of its children. -/
inductive Renders (child : Slot → Document → Prop) : Payload → Document → Prop
  | bool (flag : Bool) : Renders child (.bool flag) (.bool flag)
  | integer (n : Int32) : Renders child (.integer n) (.integer n.toInt)
  | float {x : Double} : x.isFinite → Renders child (.float x) (.float x)
  | string (text : String) : Renders child (.string text) (.string text)
  | list {items : List Slot} {docs : List Document} : List.Forall₂ child items docs →
      Renders child (.list items) (.array docs)
  | tuple {items : List Slot} {docs : List Document} : List.Forall₂ child items docs →
      Renders child (.tuple items) (.array docs)
  | dictionary {entries : Entries} {members : List (String × Document)} :
      Members child entries.pairs members → Renders child (.dictionary entries) (.object members)

theorem exportMembers_eq_ok {f : Slot → Except Failure Document} {pairs : List (String × Slot)}
    {members : List (String × Document)} :
    exportAll (fun p : String × Slot => (f p.2).map fun d => (p.1, d)) pairs = .ok members ↔
      Members (fun i d => f i = .ok d) pairs members := by
  have hone : ∀ (p : String × Slot) (m : String × Document),
      (f p.2).map (fun d => (p.1, d)) = .ok m ↔ m.1 = p.1 ∧ f p.2 = .ok m.2 := by
    rintro p ⟨key, d⟩
    rw [map_eq_ok_iff]
    constructor
    · rintro ⟨_, h, e⟩
      cases e
      exact ⟨rfl, h⟩
    · rintro ⟨rfl, h⟩
      exact ⟨d, h, rfl⟩
  rw [exportAll_eq_ok]
  unfold Members
  simp only [hone]

/-- **The document of a value**, by its payload and the documents of its children. -/
theorem exportSlot_succ {levels : Nat} {i : Slot} {d : Document} :
    a.exportSlot (levels + 1) i = .ok d ↔
      ∃ p, a.payload? i = some p ∧ Renders (fun j e => a.exportSlot levels j = .ok e) p d := by
  rw [exportSlot]
  cases hp : a.payload? i with
  | none =>
    obtain ⟨g, hg⟩ := follow_eq_error hp
    rw [hg]
    constructor
    · intro h
      cases h
    · rintro ⟨_, h, _⟩
      cases h
  | some p =>
    rw [follow_eq_ok hp]
    simp only [Option.some.injEq, exists_eq_left']
    cases p with
    | bool flag =>
      constructor <;> intro h <;> cases h
      · exact .bool flag
      · rfl
    | string text =>
      constructor <;> intro h <;> cases h
      · exact .string text
      · rfl
    | integer n =>
      constructor <;> intro h <;> cases h
      · exact .integer n
      · rfl
    | float x =>
      simp only
      split
      · rename_i hx
        constructor <;> intro h <;> cases h
        · exact .float hx
        · rfl
      · rename_i hx
        constructor <;> intro h <;> cases h
        rename_i hfinite
        exact absurd hfinite hx
    | list items =>
      simp only [map_eq_ok_iff, exportAll_eq_ok]
      constructor
      · rintro ⟨docs, h, rfl⟩
        exact .list h
      · intro h
        cases h with | list h => exact ⟨_, h, rfl⟩
    | tuple items =>
      simp only [map_eq_ok_iff, exportAll_eq_ok]
      constructor
      · rintro ⟨docs, h, rfl⟩
        exact .tuple h
      · intro h
        cases h with | tuple h => exact ⟨_, h, rfl⟩
    | dictionary entries =>
      simp only [map_eq_ok_iff, exportMembers_eq_ok]
      constructor
      · rintro ⟨members, h, rfl⟩
        exact .dictionary h
      · intro h
        cases h with | dictionary h => exact ⟨_, h, rfl⟩
    | _ => constructor <;> intro h <;> cases h

theorem forall₂_imp_mem {α β : Type} {R S : α → β → Prop} {l : List α} {ys : List β}
    (h : List.Forall₂ R l ys) (k : ∀ x ∈ l, ∀ y, R x y → S x y) : List.Forall₂ S l ys := by
  induction h with
  | nil => exact .nil
  | cons hxy _ ih =>
    exact .cons (k _ List.mem_cons_self _ hxy) (ih fun x hx => k x (List.mem_cons_of_mem _ hx))

/-- The document of a payload depends on those of its children only. -/
theorem Renders.imp {child child' : Slot → Document → Prop} {p : Payload} {d : Document}
    (h : Renders child p d) (k : ∀ j ∈ p.children, ∀ e, child j e → child' j e) :
    Renders child' p d := by
  cases h with
  | bool flag => exact .bool flag
  | integer n => exact .integer n
  | float hx => exact .float hx
  | string text => exact .string text
  | list h => exact .list (forall₂_imp_mem h k)
  | tuple h => exact .tuple (forall₂_imp_mem h k)
  | dictionary h =>
    exact .dictionary (forall₂_imp_mem h fun p hp _ he =>
      ⟨he.1, k p.2 (List.mem_map_of_mem hp) _ he.2⟩)

/-- **A document stays where the values it is read from stay**: `P` holds of these values, and of
    whatever they refer to. -/
theorem exportSlot_within {P : Slot → Prop} (hc : ∀ j k, P j → k ∈ a.childrenAt j → P k)
    (hk : ∀ j p, P j → a.payload? j = some p → b.payload? j = some p) {levels : Nat} {i : Slot}
    {d : Document} (hi : P i) (h : a.exportSlot levels i = .ok d) :
    b.exportSlot levels i = .ok d := by
  induction levels generalizing i d with
  | zero => cases h
  | succ levels ih =>
    obtain ⟨p, hp, hr⟩ := exportSlot_succ.mp h
    refine exportSlot_succ.mpr ⟨p, hk i p hi hp, hr.imp fun j hj e he => ?_⟩
    exact ih (hc i j hi (by rwa [childrenAt_of_payload? hp])) he

theorem exportSlot_kept (g : Grows a b) {levels : Nat} {i : Slot} {d : Document}
    (h : a.exportSlot levels i = .ok d) : b.exportSlot levels i = .ok d :=
  exportSlot_within (P := fun _ => True) (fun _ _ _ _ => trivial)
    (fun j p _ hp => (g.kept j p hp).1)
    trivial h

/-! ## 3. Reading what was built -/

theorem andThen_eq_ok {α β : Type} {r : Outcome α} {next : α → Arena → Outcome β} {y : β} :
    r.andThen next = .ok y c ↔ ∃ x b, r = .ok x b ∧ next x b = .ok y c := by
  obtain ⟨answer | x, b⟩ := r
  · exact ⟨nofun, fun ⟨_, _, h, _⟩ => nomatch h⟩
  · refine ⟨fun h => ⟨x, b, rfl, h⟩, ?_⟩
    rintro ⟨_, _, h, hn⟩
    cases h
    exact hn

theorem onError_eq_ok {α : Type} {r : Outcome α} {clean : Arena → Arena} {x : α} :
    r.onError clean = .ok x b ↔ r = .ok x b := by
  obtain ⟨(e | f) | y, c⟩ := r
  · exact ⟨nofun, nofun⟩
  · exact Iff.rfl
  · exact Iff.rfl

/-- A whole number of 64 bits is built as its normal form. -/
theorem renders_wholeNumber (child : Slot → Document → Prop) {n : Int}
    (h1 : -2 ^ 63 ≤ n) (h2 : n < 2 ^ 64) :
    Renders child (wholeNumber n) (Document.integer n).norm := by
  rw [Document.norm]
  by_cases h : FitsWord n
  · have e : wholeNumber n = .integer (Int32.ofInt n) := if_pos h
    rw [e, if_pos h]
    conv => arg 3; rw [← h.toInt_ofInt]
    exact .integer _
  · have e : wholeNumber n = .float (Double.ofInt n) := if_neg h
    rw [e, if_neg h]
    exact .float (Double.isFinite_ofInt (by omega))

section Parts

variable {build : Document → Arena → Outcome Handle} {levels : Nat}

/-- The value that is built for `d` reads as the normal form of `d`. -/
def Faithful (build : Document → Arena → Outcome Handle) (levels : Nat) (d : Document) : Prop :=
  ∀ a h b, a.VacantExact → build d a = .ok h b → b.exportSlot levels h.slot = .ok d.norm

theorem buildItems_faithful (hg : ∀ d b, b.VacantExact → Growing (build d b) b)
    (docs : List Document) {built hs : List Handle} (v : a.VacantExact)
    (hb : ∀ d ∈ docs, Faithful build levels d) (e : buildItems build a docs built = .ok hs b) :
    ∃ new, hs = built ++ new ∧ Grows a b ∧
      List.Forall₂ (fun h d => b.exportSlot levels h.slot = .ok d.norm) new docs := by
  induction docs generalizing a built with
  | nil =>
    cases e
    exact ⟨[], (List.append_nil _).symm, .refl v, .nil⟩
  | cons d rest ih =>
    obtain ⟨h, c, e1, e2⟩ := andThen_eq_ok.mp e
    have e1 := onError_eq_ok.mp e1
    have hd := hb d List.mem_cons_self a h c v e1
    obtain ⟨w, _, _⟩ := (hg d a v).of_ok e1
    obtain ⟨new, rfl, g, hnew⟩ := ih w.vacant (fun x hx => hb x (List.mem_cons_of_mem _ hx)) e2
    refine ⟨h :: new, by rw [List.append_assoc]; rfl, w.toGrows.trans g, ?_⟩
    exact .cons (exportSlot_kept g hd) hnew

theorem Members.keys {child : Slot → Document → Prop} {pairs : List (String × Slot)}
    {members : List (String × Document)} (h : Members child pairs members) :
    pairs.map (·.1) = members.map (·.1) := by
  induction h with
  | nil => rfl
  | cons h _ ih => rw [List.map_cons, List.map_cons, ih, h.1]

theorem putPair_new {key : String} {slot : Slot} {l : List (String × Slot)}
    (h : key ∉ l.map (·.1)) : putPair key slot l = l ++ [(key, slot)] := by
  induction l with
  | nil => rfl
  | cons p rest ih =>
    obtain ⟨hp, hrest⟩ := not_or.mp fun hm => h (List.mem_cons.mpr hm)
    unfold putPair
    rw [if_neg (Ne.symm hp), ih hrest, List.cons_append]

/-- A new key goes to the end, with its slot. -/
theorem slots_insert_new {e : Entries} {key : String} {slot : Slot} (h : key ∉ e.keys) :
    (e.insert key slot).slots = e.slots ++ [slot] := by
  have hpairs : (e.insert key slot).pairs = e.pairs ++ [(key, slot)] := putPair_new h
  rw [Entries.slots, hpairs, List.map_append]
  rfl

/-- `b` is `a` with a dictionary under way: what it holds reads as `done`, and nothing new refers
    to it. -/
structure Holding (a b : Arena) (dict : Slot) (levels : Nat) (done : List (String × Document)) :
    Prop where
  grafts : Grafts a b
  fresh : a.occupant? dict = none
  unheld : ∀ j, a.occupant? j = none → dict ∉ b.childrenAt j
  entries : ∃ e, b.payload? dict = some (.dictionary e) ∧
    Members (fun i d => b.exportSlot levels i = .ok d) e.pairs done

variable {dict item : Slot} {done : List (String × Document)} {key : String} {d : Document}

theorem holding_start (v : a.VacantExact) (k : Gains a b dict (.dictionary .empty)) :
    Holding a b dict levels [] := by
  refine ⟨(Grafts.refl v).gains k (List.forall_mem_nil _), k.fresh, fun j hj hm => ?_,
    .empty, k.payload?_new, .nil⟩
  rw [k.payload?.childrenAt] at hm
  split at hm
  · cases hm
  · rw [childrenAt_of_vacant hj] at hm
    cases hm

theorem Holding.occupied (h : Holding a b dict levels done) : (b.occupant? dict).isSome := by
  obtain ⟨e, he, _⟩ := h.entries
  exact occupied_of_payload? he

/-- Whatever is grafted on does not touch the dictionary. -/
theorem Holding.grow (h : Holding a b dict levels done) (w : Grafts b c) :
    Holding a c dict levels done := by
  obtain ⟨e, he, hm⟩ := h.entries
  refine ⟨h.grafts.trans w, h.fresh, fun j hj hd => ?_, e, (w.kept dict _ he).1,
    hm.imp fun _ _ k => ⟨k.1, exportSlot_kept w.toGrows k.2⟩⟩
  cases hp : b.payload? j with
  | none =>
    have ho := h.occupied
    rw [w.apart j dict (Option.map_eq_none_iff.mp hp) hd] at ho
    cases ho
  | some p =>
    rw [w.childrenAt (occupied_of_payload? hp)] at hd
    exact h.unheld j hj hd

/-- What was built before the dictionary was filled does not refer to it, so it reads as before. -/
theorem Holding.stay (h : Holding a b dict levels done) {q : Payload} (r : Rewrites b c dict q)
    {n : Nat} {i : Slot} {x : Document} (hi : a.occupant? i = none) (hne : i ≠ dict)
    (hx : b.exportSlot n i = .ok x) : c.exportSlot n i = .ok x :=
  exportSlot_within (P := fun j => a.occupant? j = none ∧ j ≠ dict)
    (fun j k hj hjk => ⟨h.grafts.apart j k hj.1 hjk, fun e => h.unheld j hj.1 (e ▸ hjk)⟩)
    (fun j p hj hp => by rw [r.payload? j, if_neg hj.2, hp]) ⟨hi, hne⟩ hx

/-- One more member. What the dictionary holds reads as before, since none of it leads back. -/
theorem Holding.insert (h : Holding a b dict levels done) (hi : a.occupant? item = none)
    (hne : item ≠ dict) (hd : b.exportSlot levels item = .ok d) (hk : key ∉ done.map (·.1))
    {e : Entries} (he : b.payload? dict = some (.dictionary e))
    (r : Rewrites b c dict (.dictionary (e.insert key item))) :
    Holding a c dict levels (done ++ [(key, d)]) := by
  obtain ⟨_, he', hm⟩ := h.entries
  cases he.symm.trans he'
  have hpairs : (e.insert key item).pairs = e.pairs ++ [(key, item)] :=
    putPair_new (by rwa [hm.keys])
  have hchildren : ∀ {j}, j ∈ (e.insert key item).slots → j ∈ b.childrenAt dict ∨ j = item := by
    intro j hj
    rw [Entries.slots, hpairs, List.map_append, List.mem_append] at hj
    rw [childrenAt_of_payload? he]
    exact hj.imp_right List.mem_singleton.mp
  have hrev := r.payload?.childrenAt
  have hold : ∀ j ∈ b.childrenAt dict, a.occupant? j = none ∧ j ≠ dict := fun j hj =>
    ⟨h.grafts.apart dict j h.fresh hj, fun e => h.unheld dict h.fresh (e ▸ hj)⟩
  refine ⟨h.grafts.rewrites r h.fresh fun j hj => ?_, h.fresh, fun j hj hm => ?_,
    _, by rw [r.payload? dict, if_pos rfl], ?_⟩
  · rcases hchildren hj with hj | rfl
    · exact (hold j hj).1
    · exact hi
  · rw [hrev] at hm
    by_cases hjd : j = dict
    · rw [if_pos hjd] at hm
      rcases hchildren hm with hm | rfl
      · exact (hold dict hm).2 rfl
      · exact hne rfl
    · rw [if_neg hjd] at hm
      exact h.unheld j hj hm
  · rw [hpairs]
    refine List.rel_append (forall₂_imp_mem hm fun p hp _ k => ⟨k.1, ?_⟩)
      (.cons ⟨rfl, h.stay r hi hne hd⟩ .nil)
    have hj := hold p.2 (by rw [childrenAt_of_payload? he]; exact List.mem_map_of_mem hp)
    exact h.stay r hj.1 hj.2 k.2

theorem buildMembers_faithful (hg : ∀ d b, b.VacantExact → Growing (build d b) b)
    (dict : Handle) (members : List (String × Document)) {u : Unit}
    (h : Holding a b dict.slot levels done) (hb : ∀ m ∈ members, Faithful build levels m.2)
    (hn : (done.map (·.1) ++ members.map (·.1)).Nodup)
    (e : buildMembers build dict b members = .ok u c) :
    Holding a c dict.slot levels (done ++ members.map fun m => (m.1, m.2.norm)) := by
  induction members generalizing b done with
  | nil =>
    cases e
    rwa [List.map_nil, List.append_nil]
  | cons m rest ih =>
    obtain ⟨key, d⟩ := m
    obtain ⟨x, m, e1, e2⟩ := andThen_eq_ok.mp e
    obtain ⟨_, n, e3, e4⟩ := andThen_eq_ok.mp e2
    have hd := hb _ List.mem_cons_self b x m h.grafts.vacant e1
    obtain ⟨w, hx, _⟩ := (hg d b h.grafts.vacant).of_ok e1
    have hput := insertEntry_leaves w.vacant dict key x
    rw [e3] at hput
    obtain ⟨_, entries, hr, r⟩ := hput
    have hne : x.slot ≠ dict.slot := fun he => by
      have ho := h.occupied
      rw [← he, hx] at ho
      cases ho
    have hkey : key ∉ done.map (·.1) := fun hk =>
      (List.nodup_append.mp hn).2.2 key hk key List.mem_cons_self rfl
    have hnext := (h.grow w).insert (h.grafts.vacant_of hx) hne hd hkey (readDictionary_eq_ok hr) r
    have hrest := ih hnext (fun m hm => hb m (List.mem_cons_of_mem _ hm))
      (by rwa [List.map_append, List.append_assoc]) e4
    rwa [List.append_assoc] at hrest

end Parts

/-- **Building a document answers with a value that reads as its normal form.** -/
theorem buildTree_faithful (levels : Nat) {d : Document} (hd : d.Proper) :
    Faithful (buildTree levels) levels d := by
  induction levels generalizing d with
  | zero => exact fun a h b v e => by cases e
  | succ levels ih =>
    intro a h b v e
    have hg : ∀ d b, b.VacantExact → Growing (buildTree levels d b) b := fun d _ vb =>
      buildTree_growing levels d vb
    have leaf : ∀ {p : Payload}, a.build p = .ok h b →
        Renders (fun j e => b.exportSlot levels j = .ok e) p d.norm →
        b.exportSlot (levels + 1) h.slot = .ok d.norm := by
      intro p e hr
      have k := build_leaves v p
      rw [e] at k
      exact exportSlot_succ.mpr ⟨p, k.1.payload?_new, hr⟩
    cases hd with
    | null => cases e
    | bool flag => exact leaf e (by rw [Document.norm]; exact .bool flag)
    | integer h1 h2 => exact leaf e (renders_wholeNumber _ h1 h2)
    | float hx => exact leaf e (by rw [Document.norm]; exact .float hx)
    | string text => exact leaf e (by rw [Document.norm]; exact .string text)
    | @array items hitems =>
      obtain ⟨hs, m, e1, e2⟩ := andThen_eq_ok.mp e
      obtain ⟨_, rfl, g, hnew⟩ := buildItems_faithful hg items v (fun d hm => ih (hitems d hm)) e1
      have k := buildSequence_leaves g.vacant Payload.list hs
      rw [show m.buildSequence .list hs = _ from e2] at k
      refine exportSlot_succ.mpr ⟨_, k.2.1.payload?_new, ?_⟩
      rw [Document.norm]
      refine .list (List.forall₂_map_left_iff.mpr (List.forall₂_map_right_iff.mpr ?_))
      exact hnew.imp fun _ _ hx => exportSlot_kept k.2.1.grows hx
    | @object members hnames hmembers =>
      obtain ⟨dict, m, e1, e2⟩ := andThen_eq_ok.mp e
      obtain ⟨_, n, e3, e4⟩ := andThen_eq_ok.mp e2
      cases e4
      have k := build_leaves v (.dictionary .empty)
      rw [show a.build (.dictionary .empty) = _ from e1] at k
      have hall := buildMembers_faithful hg h members (holding_start v k.1)
        (fun m hm => ih (hmembers m hm)) hnames (onError_eq_ok.mp e3)
      obtain ⟨entries, hp, hm⟩ := hall.entries
      refine exportSlot_succ.mpr ⟨_, hp, ?_⟩
      rw [Document.norm]
      exact .dictionary hm

/-! ## 4. Building what was read -/

theorem exported_of_exportSlot {levels : Nat} {i : Slot} {d : Document}
    (h : a.exportSlot levels i = .ok d) : Exported levels d := by
  induction levels generalizing i d with
  | zero => cases h
  | succ levels ih =>
    obtain ⟨p, _, hr⟩ := exportSlot_succ.mp h
    have all : ∀ {items : List Slot} {docs : List Document},
        List.Forall₂ (fun j e => a.exportSlot levels j = .ok e) items docs →
        ∀ e ∈ docs, Exported levels e := by
      intro items docs hl
      induction hl with
      | nil => exact List.forall_mem_nil _
      | cons he _ k => exact List.forall_mem_cons.mpr ⟨ih he, k⟩
    cases hr with
    | bool flag => exact .bool flag
    | integer n => exact .integer (fitsWord_toInt n)
    | float hx => exact .float hx
    | string text => exact .string text
    | list hl => exact .array (all hl)
    | tuple hl => exact .array (all hl)
    | @dictionary entries members hl =>
      refine .object (hl.keys ▸ entries.keys_nodup) fun m hm => ?_
      have hdocs : List.Forall₂ (fun j e => a.exportSlot levels j = .ok e)
          (entries.pairs.map (·.2)) (members.map (·.2)) :=
        List.forall₂_map_left_iff.mpr (List.forall₂_map_right_iff.mpr (hl.imp fun _ _ k => k.2))
      exact all hdocs m.2 (List.mem_map_of_mem hm)

/-- Building `d` succeeds where the tracker accepts its slots, and asks for no more than these. -/
def Accepts (build : Document → Arena → Outcome Handle) (d : Document) : Prop :=
  ∀ a rest, a.VacantExact → a.tracker.acceptsAll (d.footprints ++ rest) →
    ∃ h b, build d a = .ok h b ∧ b.tracker.acceptsAll rest

theorem build_accepted {p : Payload} {rest : List Nat}
    (h : a.tracker.acceptsAll (p.footprint :: rest)) :
    ∃ x b, a.build p = .ok x b ∧ b.tracker.acceptsAll rest := by
  obtain ⟨i, b, e, hb⟩ := allocate_accepted h 1
  exact ⟨_, b, andThen_eq_ok.mpr ⟨i, b, e, rfl⟩, hb⟩

theorem tracker_giveBack (a : Arena) (i : Slot) : (a.giveBack i).tracker = a.tracker := by
  unfold giveBack unlink note
  split <;> rfl

theorem tracker_giveBackReplaced (a : Arena) (previous : Option Slot) :
    (a.giveBackReplaced previous).tracker = a.tracker := by
  cases previous with
  | none => rfl
  | some i => exact tracker_giveBack a i

/-- A handle to a dictionary. -/
def NamesDictionary (a : Arena) (dict : Handle) : Prop :=
  a.resolves dict ∧ a.kind? dict.slot = some .dictionary

theorem NamesDictionary.grows {dict : Handle} (h : a.NamesDictionary dict) (g : Grows a b) :
    b.NamesDictionary dict := by
  refine ⟨g.resolves h.1, ?_⟩
  obtain ⟨p, hp, hk⟩ := Option.map_eq_some_iff.mp h.2
  rw [kind?, (g.kept _ p hp).1, Option.map_some, hk]

theorem NamesDictionary.read {dict : Handle} (h : a.NamesDictionary dict) :
    ∃ entries, a.readDictionary dict = .ok entries := by
  obtain ⟨p, hp, hk⟩ := Option.map_eq_some_iff.mp h.2
  cases p with
  | dictionary entries => exact ⟨entries, read_of_payload? h.1 hp rfl⟩
  | _ => cases hk

theorem insertEntry_accepted {dict item : Handle} (key : String) (v : a.VacantExact)
    (hd : a.NamesDictionary dict) (hi : a.resolves item) :
    ∃ b, a.insertEntry dict key item = .ok () b ∧ b.tracker = a.tracker ∧ b.VacantExact ∧
      b.NamesDictionary dict := by
  obtain ⟨entries, he⟩ := hd.read
  obtain ⟨o, ho⟩ := resolves_iff.mp hi
  have e : a.insertEntry dict key item = .ok ()
      ((a.setPayload dict.slot (.dictionary (entries.insert key item.slot))).giveBackReplaced
        (entries.get? key)) := by
    unfold insertEntry takeOver
    rw [ho, he]
  have hput := insertEntry_leaves v dict key item
  rw [e] at hput
  obtain ⟨_, _, _, r⟩ := hput
  refine ⟨_, e, tracker_giveBackReplaced _ _, r.vacant, (r.resolves dict).mpr hd.1, ?_⟩
  exact (r.payload?.kind? dict.slot).trans (if_pos rfl)

section Parts

variable {build : Document → Arena → Outcome Handle} {rest : List Nat}

theorem buildItems_accepted (hg : ∀ d b, b.VacantExact → Growing (build d b) b)
    (docs : List Document) (built : List Handle) (v : a.VacantExact)
    (hb : ∀ d ∈ docs, Accepts build d)
    (ht : a.tracker.acceptsAll (docs.flatMap footprints ++ rest)) :
    ∃ hs b, buildItems build a docs built = .ok hs b ∧ hs.length = built.length + docs.length ∧
      b.tracker.acceptsAll rest := by
  induction docs generalizing a built with
  | nil => exact ⟨built, a, rfl, rfl, ht⟩
  | cons d docs ih =>
    rw [List.flatMap_cons, List.append_assoc] at ht
    obtain ⟨h, c, e1, h1⟩ := hb d List.mem_cons_self a _ v ht
    obtain ⟨w, _, _⟩ := (hg d a v).of_ok e1
    obtain ⟨hs, b, e2, hl, h2⟩ :=
      ih (built ++ [h]) w.vacant (fun x hx => hb x (List.mem_cons_of_mem _ hx)) h1
    refine ⟨hs, b, andThen_eq_ok.mpr ⟨h, c, onError_eq_ok.mpr e1, e2⟩, ?_, h2⟩
    rw [hl, List.length_append, List.length_singleton, List.length_cons]
    omega

theorem buildMembers_accepted (hg : ∀ d b, b.VacantExact → Growing (build d b) b) (dict : Handle)
    (members : List (String × Document)) (v : a.VacantExact) (hd : a.NamesDictionary dict)
    (hb : ∀ m ∈ members, Accepts build m.2)
    (ht : a.tracker.acceptsAll (members.flatMap (fun m => footprints m.2) ++ rest)) :
    ∃ b, buildMembers build dict a members = .ok () b ∧ b.tracker.acceptsAll rest := by
  induction members generalizing a with
  | nil => exact ⟨a, rfl, ht⟩
  | cons m members ih =>
    obtain ⟨key, d⟩ := m
    rw [List.flatMap_cons, List.append_assoc] at ht
    obtain ⟨h, c, e1, h1⟩ := hb (key, d) List.mem_cons_self a _ v ht
    obtain ⟨w, _, hr⟩ := (hg d a v).of_ok e1
    obtain ⟨b, e2, htb, vb, hdb⟩ := insertEntry_accepted key w.vacant (hd.grows w.toGrows) hr
    obtain ⟨c', e3, h3⟩ := ih vb hdb (fun m hm => hb m (List.mem_cons_of_mem _ hm)) (htb ▸ h1)
    exact ⟨c', andThen_eq_ok.mpr ⟨h, c, e1, andThen_eq_ok.mpr ⟨(), b, e2, e3⟩⟩, h3⟩

end Parts

theorem firstError?_of_resolves {hs : List Handle} (hr : ∀ h ∈ hs, a.resolves h) :
    a.firstError? hs = none :=
  List.findSome?_eq_none_iff.mpr fun x hx => by
    obtain ⟨o, ho⟩ := resolves_iff.mp (hr x hx)
    rw [ho]

/-- The list of the values that handles name is built where the tracker accepts it. -/
theorem buildList_accepted {hs : List Handle} {rest : List Nat} (hr : ∀ h ∈ hs, a.resolves h)
    (ht : a.tracker.acceptsAll ((Payload.list (hs.map (·.slot))).footprint :: rest)) :
    ∃ h b, a.buildList hs = .ok h b ∧ b.tracker.acceptsAll rest := by
  obtain ⟨h, b, e, hb⟩ := build_accepted ht
  refine ⟨h, b, ?_, hb⟩
  unfold buildList buildSequence
  rw [firstError?_of_resolves hr]
  exact onError_eq_ok.mpr e

/-- **A document that values can have is built wherever the tracker accepts its slots.** -/
theorem buildTree_accepted {levels : Nat} {d : Document} (hd : Exported levels d) :
    Accepts (buildTree levels) d := by
  induction hd with
  | bool | integer | float | string =>
    intro a rest v ht
    rw [footprints] at ht
    exact build_accepted ht
  | @array levels items _ ih =>
    intro a rest v ht
    have hg : ∀ d b, b.VacantExact → Growing (buildTree levels d b) b := fun d _ vb =>
      buildTree_growing levels d vb
    rw [footprints, List.append_assoc] at ht
    obtain ⟨hs, b, e1, hl, h1⟩ := buildItems_accepted hg items [] v ih ht
    have hall := buildItems_grafts hg items [] (.refl v) (List.forall_mem_nil _)
    rw [e1] at hall
    have hlen : (Payload.list (hs.map (·.slot))).footprint =
        Payload.footprintUnits.value + Payload.footprintUnits.child * items.length := by
      rw [List.length_nil, Nat.zero_add] at hl
      rw [Payload.footprint, List.length_map, hl]
    obtain ⟨h, c, e2, h2⟩ := buildList_accepted (fun x hx => (hall.2 x hx).2) (hlen ▸ h1)
    exact ⟨h, c, andThen_eq_ok.mpr ⟨hs, b, e1, e2⟩, h2⟩
  | @object levels members _ _ ih =>
    intro a rest v ht
    have hg : ∀ d b, b.VacantExact → Growing (buildTree levels d b) b := fun d _ vb =>
      buildTree_growing levels d vb
    rw [footprints, List.cons_append] at ht
    obtain ⟨dict, b, e1, h1⟩ := build_accepted ht
    have k := build_leaves v (.dictionary .empty)
    rw [e1] at k
    have hp : b.payload? dict.slot = some (.dictionary .empty) := k.1.payload?_new
    have hdict : b.NamesDictionary dict := ⟨k.2, by rw [kind?, hp]; rfl⟩
    obtain ⟨c, e2, h2⟩ := buildMembers_accepted hg dict members k.1.vacant hdict ih h1
    refine ⟨dict, c, andThen_eq_ok.mpr ⟨dict, b, e1, ?_⟩, h2⟩
    exact andThen_eq_ok.mpr ⟨(), c, onError_eq_ok.mpr e2, rfl⟩

/-! ## 5. There and back -/

theorem exportDocument_eq_ok {h : Handle} {d : Document} :
    a.exportDocument h = .ok d ↔ a.resolves h ∧ a.exportSlot levels h.slot = .ok d := by
  unfold exportDocument
  cases hl : a.lookup h with
  | error e =>
    refine ⟨nofun, fun ⟨hr, _⟩ => ?_⟩
    obtain ⟨o, ho⟩ := resolves_iff.mp hr
    rw [hl] at ho
    cases ho
  | ok o => exact ⟨fun e => ⟨resolves_iff.mpr ⟨o, hl⟩, e⟩, fun e => e.2⟩

/-- **What was built reads as the normal form of the document.** -/
theorem exportDocument_importDocument (v : a.VacantExact) {d : Document} (hd : d.Proper)
    {h : Handle} (e : a.importDocument d = .ok h b) : b.exportDocument h = .ok d.norm :=
  exportDocument_eq_ok.mpr
    ⟨((buildTree_growing levels d v).of_ok e).2.2, buildTree_faithful levels hd a h b v e⟩

/-- **What was read can be built again** wherever the tracker accepts it. -/
theorem importDocument_accepted {h : Handle} {d : Document} (e : a.exportDocument h = .ok d)
    (v : b.VacantExact) (ht : b.tracker.acceptsAll d.footprints) :
    ∃ g c, b.importDocument d = .ok g c ∧ c.exportDocument g = .ok d := by
  have hd := exported_of_exportSlot (exportDocument_eq_ok.mp e).2
  obtain ⟨g, c, e1, _⟩ := buildTree_accepted hd b [] v (by rwa [List.append_nil])
  refine ⟨g, c, e1, ?_⟩
  rw [exportDocument_importDocument v hd.proper e1, hd.norm]

end Arena

end ValueHeap
