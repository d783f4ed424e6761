import ValueHeap.Proofs.Groves

/-!
# Building a document plants a tree

The induction follows the recursion of the builder. Whatever is in the hands of an outer level, its
finished items or its half-filled dictionary, is for the levels inside a reference that moves.

* `Document.nodes`: a document and all inside it, in the order in which `Grove` lists their slots;
* `Planted`: the values built so far are one tree for each handle, and their slots read as nodes;
* **`buildTree_planted`**: a document that is built is planted, and what is left of one that is not
  built is `Sown`, with no reference in hand.
-/

namespace ValueHeap

namespace Document

/-- The document and all documents inside it, each before its own parts. -/
def nodes : Document → List Document
  | null => [null]
  | bool flag => [bool flag]
  | integer n => [integer n]
  | float x => [float x]
  | string text => [string text]
  | array items => array items :: items.flatMap nodes
  | object members => object members :: members.flatMap fun m => nodes m.2
decreasing_by
  · decreasing_tactic
  · simpa using sizeOf_member ‹_ ∈ members›

end Document

namespace Arena

open Outcome Document

variable {a b c : Arena} {ledger : List Handle} {moving : List Slot}

/-! ## 1. Ways to end -/

namespace Outcome

variable {α : Type} {r : Outcome α} {good good' : α → Arena → Prop} {bad bad' : Arena → Prop}
  {fatal fatal' : Fault → Arena → Prop}

theorem Ends.and (h : r.Ends good bad fatal) (k : r.Ends good' bad' fatal') :
    r.Ends (fun x b => good x b ∧ good' x b) (fun b => bad b ∧ bad' b)
      fun f b => fatal f b ∧ fatal' f b := by
  obtain ⟨(e | f) | x, b⟩ := r <;> exact ⟨h, k⟩

/-- What ends well does so with the answer that it gives. -/
theorem Ends.with_eq (h : r.Ends good bad fatal) :
    r.Ends (fun x b => r = .ok x b ∧ good x b) bad fatal := by
  obtain ⟨(e | f) | x, b⟩ := r
  · exact h
  · exact h
  · exact ⟨rfl, h⟩

end Outcome

/-! ## 2. References while values are built -/

namespace Coherent

/-- **Issuing the handles** of references on the move. -/
theorem issueAll (hs : List Handle) (co : a.Coherent ledger (hs.map (·.slot) ++ moving))
    (hr : ∀ h ∈ hs, a.resolves h) : a.Coherent (hs ++ ledger) moving := by
  induction hs generalizing moving with
  | nil => exact co
  | cons h hs ih =>
    obtain ⟨hh, hrest⟩ := List.forall_mem_cons.mp hr
    have c1 := ih (co.perm_moving List.perm_middle) hrest
    have c2 := Coherent.issue c1
    rwa [← (resolves_iff_handleOf.mp hh).2] at c2

/-- A value is built: its children come off the move, and its handle is in hand. All handles
    outstanding name values, so none of them names the new one. -/
theorem build {p : Payload} (co : a.Coherent ledger (p.children ++ moving))
    (hk : p.kind ≠ .dictItems) (hl : ∀ h ∈ ledger, a.resolves h) :
    (a.build p).Ends (fun h b => b.Coherent ledger (h.slot :: moving))
      (fun b => b.Coherent ledger (p.children ++ moving))
      fun _ b => b.Coherent ledger (p.children ++ moving) := by
  have hf : (a.fill ⟨1, p⟩).handleOf a.nextSlot ∉ ledger := fun hm => by
    have ho := (resolves_iff_handleOf.mp (hl _ hm)).1
    rw [show ((a.fill ⟨1, p⟩).handleOf a.nextSlot).slot = a.nextSlot from rfl,
      co.vacant.nextSlot_vacant] at ho
    cases ho
  have hv : ∀ d, p = .dictItems d → a.kind? d = some .dictionary := by
    intro d hd
    rw [hd] at hk
    exact absurd rfl hk
  unfold Arena.build
  rcases a.allocate_cases p 1 with ⟨b, e, hb⟩ | ⟨why, b, e, hb⟩ | ⟨b, e, hb⟩ <;> rw [e]
  · exact (co.fill_of_fresh hv hf).of_sameSlots hb
  · exact co.of_sameSlots hb
  · exact co.of_sameSlots hb

/-- The list of some values that are in hand. -/
theorem buildList {hs : List Handle} (co : a.Coherent ledger (hs.map (·.slot) ++ moving))
    (hr : ∀ h ∈ hs, a.resolves h) (hl : ∀ h ∈ ledger, a.resolves h) :
    (a.buildList hs).Ends (fun h b => b.Coherent ledger (h.slot :: moving))
      (fun b => b.Coherent ledger moving)
      fun _ b => b.Coherent ledger (hs.map (·.slot) ++ moving) := by
  unfold Arena.buildList buildSequence
  rw [firstError?_of_resolves hr]
  have hbuild := Coherent.build (p := .list (hs.map (·.slot))) co Kind.noConfusion hl
  exact Ends.onError hbuild fun b k => Coherent.giveBackAll (hs.map (·.slot)) k

/-- A value in hand is put under a new key. -/
theorem insertEntry {dict item : Handle} {key : String} {e : Entries}
    (co : a.Coherent ledger (item.slot :: moving)) (hi : a.resolves item)
    (he : a.readDictionary dict = .ok e) (hk : key ∉ e.keys) :
    ∃ b, a.insertEntry dict key item = .ok () b ∧ b.Coherent ledger moving := by
  obtain ⟨o, ho⟩ := resolves_iff.mp hi
  have hnone : e.get? key = none := List.lookup_eq_none_iff.mpr fun p hp =>
    bne_iff_ne.mpr fun hn => hk (List.mem_map.mpr ⟨p, hp, hn.symm⟩)
  refine ⟨a.setPayload dict.slot (.dictionary (e.insert key item.slot)), ?_, ?_⟩
  · unfold Arena.insertEntry takeOver
    rw [ho, he]
    simp only [hnone, giveBackReplaced]
  · refine co.setPayload (readDictionary_eq_ok he) rfl Kind.noConfusion fun j => ?_
    simp only [Payload.children, slots_insert_new hk, List.count_append, List.count_cons,
      List.count_nil]
    omega

end Coherent

theorem Sown.releaseAll (hs : List Handle) (h : Sown a b ledger moving (hs.map (·.slot)))
    (hr : ∀ x ∈ hs, b.resolves x) : Sown a (b.releaseAll hs) ledger moving [] :=
  h.still (still_releaseAll hs h.vacant) (Coherent.releaseAll hs (h.coherent.issueAll hs hr))
    (List.nil_subset _)

/-! ## 3. What was built, node by node -/

/-- The slots read as the normal forms of the documents, one as one. -/
def Reads (b : Arena) (nodes : List Document) (slots : List Slot) : Prop :=
  List.Forall₂ (fun d i => ∃ levels, b.exportSlot levels i = .ok d.norm) nodes slots

theorem Reads.grows {nodes : List Document} {slots : List Slot} (h : b.Reads nodes slots)
    (g : Grows b c) : c.Reads nodes slots :=
  h.imp fun _ _ k => k.imp fun _ hd => exportSlot_kept g hd

theorem Reads.readable {nodes : List Document} {slots : List Slot} (h : b.Reads nodes slots)
    {i : Slot} (hi : i ∈ slots) : b.Readable i := by
  obtain ⟨d, levels, hd⟩ := exists_of_forall₂ h.flip hi
  exact ⟨levels, d.norm, hd⟩

/-- `b` is `a` with a tree for each of the roots, to which a reference is in hand; the slots of
    all these trees read as the given documents. -/
structure Planted (a b : Arena) (ledger : List Handle) (moving roots : List Slot)
    (nodes : List Document) : Prop extends Grafts a b where
  coherent : b.Coherent ledger (roots ++ moving)
  grove : ∃ slots, Grove a b roots slots ∧ b.Reads nodes slots

namespace Planted

variable {roots : List Slot} {nodes : List Document}

theorem none (co : a.Coherent ledger moving) : Planted a a ledger moving [] [] where
  toGrafts := .refl co.vacant
  coherent := co
  grove := ⟨[], .none a, .nil⟩

theorem sown (h : Planted a b ledger moving roots nodes) : Sown a b ledger moving roots := by
  obtain ⟨slots, g, hr⟩ := h.grove
  exact ⟨h.toGrafts, h.coherent, fun i hi => ((g.mem_iff i).mp (g.root_mem hi)).1,
    fun i hv hs => hr.readable ((g.mem_iff i).mpr ⟨hv, hs⟩)⟩

/-- One more tree, planted with the references to the others on the move. -/
theorem beside {i : Slot} {nodes' : List Document} (h : Planted a b ledger moving roots nodes)
    (k : Planted b c ledger (roots ++ moving) [i] nodes') :
    Planted a c ledger moving (roots ++ [i]) (nodes ++ nodes') := by
  obtain ⟨slots, g, hr⟩ := h.grove
  obtain ⟨slots', g', hr'⟩ := k.grove
  refine ⟨h.toGrafts.trans k.toGrafts, ?_, slots ++ slots',
    g.beside g' h.toGrows k.toGrows, List.rel_append (hr.grows k.toGrows) hr'⟩
  refine k.coherent.perm_moving ?_
  rw [List.append_assoc, List.singleton_append]
  exact List.perm_middle

/-- A value that holds the roots. -/
theorem plant {p : Payload} {i : Slot} {d : Document}
    (h : Planted a b ledger moving p.children nodes) (k : Gains b c i p)
    (co : c.Coherent ledger (i :: moving)) (hd : ∃ levels, c.exportSlot levels i = .ok d.norm) :
    Planted a c ledger moving [i] (d :: nodes) := by
  obtain ⟨slots, g, hr⟩ := h.grove
  refine ⟨h.toGrafts.gains k fun j hj => ?_, co, i :: slots, g.plant h.toGrows k,
    .cons hd (hr.grows k.grows)⟩
  exact ((g.mem_iff j).mp (g.root_mem hj)).1

end Planted

/-! ## 4. Dictionaries under way -/

/-- `b` is `a` with a dictionary that is in hand and holds the members of `done`. -/
structure Stocked (a b : Arena) (ledger : List Handle) (moving : List Slot) (dict : Handle)
    (levels : Nat) (done : List (String × Document)) : Prop where
  coherent : b.Coherent ledger (dict.slot :: moving)
  resolves : b.resolves dict
  holding : Holding a b dict.slot levels (done.map fun m => (m.1, m.2.norm))
  grove : ∃ slots, Grove a b [dict.slot] (dict.slot :: slots) ∧
    b.Reads (done.flatMap fun m => m.2.nodes) slots

namespace Stocked

variable {dict item : Handle} {levels : Nat} {done : List (String × Document)} {key : String}
  {d : Document}

theorem start (co : a.Coherent ledger moving) (k : a.Builds? (.dictionary .empty) dict b)
    (cb : b.Coherent ledger (dict.slot :: moving)) : Stocked a b ledger moving dict levels [] where
  coherent := cb
  resolves := k.2
  holding := holding_start co.vacant k.1
  grove := ⟨[], Grove.plant (.none a) (.refl co.vacant) k.1, .nil⟩

/-- The dictionary reads as the members that are done. -/
theorem exportSlot (h : Stocked a b ledger moving dict levels done) :
    ∃ n, b.exportSlot n dict.slot = .ok (Document.object done).norm := by
  obtain ⟨e, he, hm⟩ := h.holding.entries
  refine ⟨levels + 1, exportSlot_succ.mpr ⟨_, he, ?_⟩⟩
  rw [Document.norm]
  exact .dictionary hm

theorem planted (h : Stocked a b ledger moving dict levels done) :
    Planted a b ledger moving [dict.slot] (Document.object done).nodes := by
  obtain ⟨slots, g, hr⟩ := h.grove
  refine ⟨h.holding.grafts, h.coherent, dict.slot :: slots, g, ?_⟩
  rw [Document.nodes]
  exact .cons h.exportSlot hr

/-- **One more member** is put in, with the tree that was planted for it. -/
theorem insert (h : Stocked a b ledger moving dict levels done)
    (k : Planted b c ledger (dict.slot :: moving) [item.slot] d.nodes) (hi : c.resolves item)
    (hd : c.exportSlot levels item.slot = .ok d.norm) (hk : key ∉ done.map (·.1)) :
    ∃ m, c.insertEntry dict key item = .ok () m ∧
      Stocked a m ledger moving dict levels (done ++ [(key, d)]) := by
  obtain ⟨slots, g, hr⟩ := h.grove
  obtain ⟨slots', g', hr'⟩ := k.grove
  have hold := h.holding.grow k.toGrafts
  have hresolves := k.resolves h.resolves
  obtain ⟨e, he, hm⟩ := hold.entries
  have hread : c.readDictionary dict = .ok e := read_of_payload? hresolves he rfl
  have hnames : (done.map fun m => (m.1, m.2.norm)).map (·.1) = done.map (·.1) := by
    rw [List.map_map]
    rfl
  have hkey : key ∉ e.keys := by rwa [Entries.keys, hm.keys, hnames]
  obtain ⟨m, heq, cm⟩ := k.coherent.insertEntry hi hread hkey
  -- the insertion rewrites the dictionary and nothing else
  have hput := insertEntry_leaves k.vacant dict key item
  rw [heq] at hput
  obtain ⟨_, e', he', r⟩ := hput
  cases hread.symm.trans he'
  have hnew : b.occupant? item.slot = none := ((g'.mem_iff _).mp (g'.root_mem
    (List.mem_singleton_self _))).1
  have hne : item.slot ≠ dict.slot := fun h' => by
    have ho := h.holding.occupied
    rw [← h', hnew] at ho
    cases ho
  have hitem := h.holding.grafts.vacant_of hnew
  have hgrove : Grove a c [dict.slot, item.slot] (dict.slot :: (slots ++ slots')) :=
    g.beside g' h.holding.grafts.toGrows k.toGrows
  have hchildren : (Payload.dictionary (e.insert key item.slot)).children =
      c.childrenAt dict.slot ++ [item.slot] := by
    rw [childrenAt_of_payload? he]
    exact slots_insert_new hkey
  refine ⟨m, heq, cm, (r.resolves dict).mpr hresolves, ?_, slots ++ slots',
    hgrove.store r hchildren, ?_⟩
  · rw [List.map_append]
    exact hold.insert hitem hne hd (by rwa [hnames]) he r
  · rw [List.flatMap_append, List.flatMap_singleton]
    have hall := List.rel_append (hr.grows k.toGrows) hr'
    refine (forall₂_imp_mem hall.flip fun i hi' x hx => ?_).flip
    have hslot : i ∈ dict.slot :: (slots ++ slots') := List.mem_cons_of_mem _ hi'
    have hdict : i ≠ dict.slot := fun h' => (List.nodup_cons.mp hgrove.nodup).1 (h' ▸ hi')
    exact hx.imp fun n => hold.stay r ((hgrove.mem_iff i).mp hslot).1 hdict

end Stocked

/-! ## 5. Building -/

section Parts

variable {build : Document → Arena → Outcome Handle} {levels : Nat}

/-- Building `d` plants it, or leaves values to which no reference is in hand. After a fault,
    references may be left over. -/
def Plants (ledger : List Handle) (build : Document → Arena → Outcome Handle) (d : Document) :
    Prop :=
  ∀ a moving, a.Coherent ledger moving → (∀ x ∈ ledger, a.resolves x) →
    (build d a).Ends (fun h b => Planted a b ledger moving [h.slot] d.nodes ∧ b.resolves h)
      (fun b => Sown a b ledger moving []) fun _ b => ∃ loose, Sown a b ledger moving loose

theorem buildItems_planted (docs : List Document) (built : List Handle) {nodes : List Document}
    (hb : ∀ d ∈ docs, Plants ledger build d) (hl : ∀ x ∈ ledger, a.resolves x)
    (w : Planted a b ledger moving (built.map (·.slot)) nodes) (hw : ∀ h ∈ built, b.resolves h) :
    (buildItems build b docs built).Ends
      (fun hs c =>
        Planted a c ledger moving (hs.map (·.slot)) (nodes ++ docs.flatMap Document.nodes)
        ∧ ∀ h ∈ hs, c.resolves h)
      (fun c => Sown a c ledger moving []) fun _ c => ∃ loose, Sown a c ledger moving loose := by
  induction docs generalizing b built nodes with
  | nil =>
    rw [List.flatMap_nil, List.append_nil]
    exact ⟨w, hw⟩
  | cons d docs ih =>
    obtain ⟨hd, hdocs⟩ := List.forall_mem_cons.mp hb
    have hone := hd b _ w.coherent fun x hx => w.resolves (hl x hx)
    have hstep : ((build d b).onError (·.releaseAll built)).Ends
        (fun h c => Planted b c ledger (built.map (·.slot) ++ moving) [h.slot] d.nodes ∧
          c.resolves h)
        (fun c => Sown a c ledger moving []) fun _ c => ∃ loose, Sown a c ledger moving loose := by
      refine Ends.onError (Ends.imp hone (fun _ _ k => k) (fun c k => k) ?_) fun c k => ?_
      · intro _ c hc
        obtain ⟨loose, k⟩ := hc
        exact ⟨_, w.sown.trans k⟩
      · exact (w.sown.trans k).releaseAll built fun x hx => k.resolves (hw x hx)
    refine Ends.andThen hstep fun h c k => ?_
    rw [List.flatMap_cons, ← List.append_assoc]
    refine ih (built ++ [h]) hdocs ?_ fun x hx => ?_
    · rw [List.map_append]
      exact w.beside k.1
    · rcases List.mem_append.mp hx with hx | hx
      · exact k.1.resolves (hw x hx)
      · obtain rfl := List.mem_singleton.mp hx
        exact k.2

theorem buildMembers_planted (dict : Handle) (members : List (String × Document))
    {done : List (String × Document)} (hb : ∀ m ∈ members, Plants ledger build m.2)
    (hf : ∀ m ∈ members, Faithful build levels m.2) (hl : ∀ x ∈ ledger, a.resolves x)
    (w : Stocked a b ledger moving dict levels done)
    (hn : (done.map (·.1) ++ members.map (·.1)).Nodup) :
    (buildMembers build dict b members).Ends
      (fun _ c => Stocked a c ledger moving dict levels (done ++ members))
      (fun c => Sown a c ledger moving [dict.slot] ∧ c.resolves dict)
      fun _ c => ∃ loose, Sown a c ledger moving loose := by
  induction members generalizing b done with
  | nil => rwa [List.append_nil]
  | cons m members ih =>
    obtain ⟨key, d⟩ := m
    obtain ⟨hd, hmembers⟩ := List.forall_mem_cons.mp hb
    obtain ⟨hfd, hfmembers⟩ := List.forall_mem_cons.mp hf
    have v := w.holding.grafts.vacant
    have hone := hd b _ w.coherent fun x hx => w.holding.grafts.resolves (hl x hx)
    refine Ends.andThen (Ends.imp hone.with_eq (fun _ _ k => k) (fun c k => ?_) ?_) ?_
    · exact ⟨w.planted.sown.trans k, k.resolves w.resolves⟩
    · intro _ c hc
      obtain ⟨loose, k⟩ := hc
      exact ⟨_, w.planted.sown.trans k⟩
    intro h c hc
    obtain ⟨e, k, hr⟩ := hc
    have hkey : key ∉ done.map (·.1) := fun hk =>
      (List.nodup_append.mp hn).2.2 key hk key List.mem_cons_self rfl
    obtain ⟨m, e', wm⟩ := w.insert k hr (hfd b h c v e) hkey
    rw [e', andThen_ok, show done ++ (key, d) :: members = (done ++ [(key, d)]) ++ members by simp]
    exact ih hmembers hfmembers wm (by rwa [List.map_append, List.append_assoc])

end Parts

/-- A value without children is built, and its handle is in hand. -/
theorem build_sown {p : Payload} (co : a.Coherent ledger moving) (hl : ∀ x ∈ ledger, a.resolves x)
    (hp : p.children = []) (hk : p.kind ≠ .dictItems) :
    (a.build p).Ends (fun h b => a.Builds? p h b ∧ b.Coherent ledger (h.slot :: moving))
      (fun b => Sown a b ledger moving []) fun _ b => ∃ loose, Sown a b ledger moving loose := by
  have co' : a.Coherent ledger (p.children ++ moving) := by rwa [hp]
  refine Ends.imp ((build_leaves co.vacant p).and (co'.build hk hl)) (fun _ _ k => k) ?_ ?_
  · exact fun b k => (Sown.refl co).still k.1 (hp ▸ k.2) (List.nil_subset _)
  · exact fun _ b k => ⟨[], (Sown.refl co).still k.1 (hp ▸ k.2) (List.nil_subset _)⟩

theorem build_planted {p : Payload} {d : Document} (co : a.Coherent ledger moving)
    (hl : ∀ x ∈ ledger, a.resolves x) (hp : p.children = []) (hk : p.kind ≠ .dictItems)
    (hr : Renders (fun _ _ => False) p d.norm) (hn : d.nodes = [d]) :
    (a.build p).Ends (fun h b => Planted a b ledger moving [h.slot] d.nodes ∧ b.resolves h)
      (fun b => Sown a b ledger moving []) fun _ b => ∃ loose, Sown a b ledger moving loose := by
  refine Ends.weaken (build_sown co hl hp hk) ?_
  intro h b hb
  obtain ⟨k, cb⟩ := hb
  have hroot : b.exportSlot 1 h.slot = .ok d.norm :=
    exportSlot_succ.mpr ⟨p, k.1.payload?_new, hr.imp fun _ _ _ hf => hf.elim⟩
  rw [hn]
  exact ⟨Planted.plant (hp.symm ▸ .none co) k.1 cb ⟨1, hroot⟩, k.2⟩

theorem buildDictionary_stocked (co : a.Coherent ledger moving) (hl : ∀ x ∈ ledger, a.resolves x)
    (levels : Nat) :
    a.buildDictionary.Ends (fun dict b => Stocked a b ledger moving dict levels [])
      (fun b => Sown a b ledger moving []) fun _ b => ∃ loose, Sown a b ledger moving loose :=
  Ends.weaken (build_sown (p := .dictionary .empty) co hl rfl Kind.noConfusion)
    fun _ _ k => .start co k.1 k.2

theorem buildList_planted {items : List Document} {hs : List Handle}
    (w : Planted a b ledger moving (hs.map (·.slot)) (items.flatMap Document.nodes))
    (hr : ∀ h ∈ hs, b.resolves h) (hl : ∀ x ∈ ledger, a.resolves x) :
    (b.buildList hs).Ends
      (fun h c => ((∃ n, c.exportSlot n h.slot = .ok (Document.array items).norm) →
        Planted a c ledger moving [h.slot] (Document.array items).nodes) ∧ c.resolves h)
      (fun c => Sown a c ledger moving []) fun _ c => ∃ loose, Sown a c ledger moving loose := by
  have hlist := (buildSequence_leaves w.vacant Payload.list hs).and
    (w.coherent.buildList hr fun x hx => w.resolves (hl x hx))
  refine Ends.imp hlist ?_ ?_ ?_
  · intro h c hc
    obtain ⟨⟨_, k⟩, co⟩ := hc
    refine ⟨fun hd => ?_, k.2⟩
    rw [Document.nodes]
    exact Planted.plant (p := .list (hs.map (·.slot))) w k.1 co hd
  · exact fun c k => w.sown.still k.1 k.2 (List.nil_subset _)
  · exact fun _ c k => ⟨_, w.sown.still k.1 k.2 (List.Subset.refl _)⟩

/-- **Building a document plants it**, or leaves nothing that a reference is in hand to. -/
theorem buildTree_planted (levels : Nat) {d : Document} (hd : d.Proper) :
    Plants ledger (buildTree levels) d := by
  induction levels generalizing d with
  | zero => exact fun a moving co hl => Sown.refl co
  | succ levels ih =>
    intro a moving co hl
    have hroot := buildTree_faithful (levels + 1) hd a
    cases hd with
    | null => exact Sown.refl co
    | bool flag =>
      exact build_planted co hl rfl Kind.noConfusion (by rw [Document.norm]; exact .bool flag)
        (by rw [Document.nodes])
    | @integer n h1 h2 =>
      exact build_planted co hl (children_wholeNumber n) (kind_wholeNumber n)
        (renders_wholeNumber _ h1 h2) (by rw [Document.nodes])
    | float hx =>
      exact build_planted co hl rfl Kind.noConfusion (by rw [Document.norm]; exact .float hx)
        (by rw [Document.nodes])
    | string text =>
      exact build_planted co hl rfl Kind.noConfusion (by rw [Document.norm]; exact .string text)
        (by rw [Document.nodes])
    | @array items hitems =>
      have hall := buildItems_planted items [] (fun d hm => ih (hitems d hm)) hl (.none co)
        (List.forall_mem_nil _)
      rw [List.nil_append] at hall
      have hlist := Ends.andThen hall fun hs b k => buildList_planted k.1 k.2 hl
      refine Ends.weaken (Ends.with_eq hlist) ?_
      intro h b hb
      obtain ⟨e, k, hr⟩ := hb
      exact ⟨k ⟨_, hroot h b co.vacant e⟩, hr⟩
    | @object members hnames hmembers =>
      refine Ends.andThen (buildDictionary_stocked co hl levels) fun dict b w => ?_
      have hall := buildMembers_planted dict members (fun m hm => ih (hmembers m hm))
        (fun m hm => buildTree_faithful levels (hmembers m hm)) hl w hnames
      rw [List.nil_append] at hall
      refine Ends.andThen (Ends.onError hall fun c k => ?_) fun _ c k => ⟨k.planted, k.resolves⟩
      exact Sown.releaseAll [dict] k.1 (List.forall_mem_singleton.mpr k.2)

/-- **However building ends**, values were added and nothing else has happened. -/
theorem buildTree_sown (levels : Nat) {d : Document} (hd : d.Proper)
    (co : a.Coherent ledger moving) (hl : ∀ x ∈ ledger, a.resolves x) :
    ∃ loose, Sown a (buildTree levels d a).arena ledger moving loose :=
  always_iff.mp (Ends.imp (buildTree_planted levels hd a moving co hl)
    (fun _ _ k => ⟨_, k.1.sown⟩) (fun _ k => ⟨_, k⟩) fun _ _ k => k)

end Arena

end ValueHeap
