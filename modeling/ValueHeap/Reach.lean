import ValueHeap.Handle

/-!
# What can be reached

`reach next domain pending` lists what can be reached from `pending` along `next` without leaving
the finite `domain`: each member once, in breadth-first order. Every member that is taken leaves
the domain, so cycles need no extra care.

* `Reaches` is the relation, step by step;
* **`mem_reach_iff`**: the list holds exactly what the relation reaches;
* `nodup_reach`: it holds nothing twice.
-/

namespace ValueHeap

/-- `Reaches next domain start x`: some path inside the domain leads from `start` to `x`. -/
inductive Reaches (next : Slot → List Slot) (domain start : List Slot) : Slot → Prop
  | here {x : Slot} : x ∈ start → x ∈ domain → Reaches next domain start x
  | step {x y : Slot} : Reaches next domain start x → y ∈ next x → y ∈ domain →
      Reaches next domain start y

/-- What can be reached from `pending` inside `domain`, the nearest first. -/
def reach (next : Slot → List Slot) (domain : List Slot) : (pending : List Slot) → List Slot
  | [] => []
  | x :: pending =>
    if x ∈ domain then x :: reach next (domain.erase x) (pending ++ next x)
    else reach next domain pending
termination_by pending => (domain.length, pending.length)
decreasing_by
  · rename_i h
    have e := List.length_erase_of_mem h
    have pos := List.length_pos_of_mem h
    exact Prod.Lex.left _ _ (by omega)
  · exact Prod.Lex.right _ (by simp)

theorem Reaches.mem_domain {next : Slot → List Slot} {domain start : List Slot} {x : Slot}
    (h : Reaches next domain start x) : x ∈ domain := by
  cases h with
  | here _ hd => exact hd
  | step _ _ hd => exact hd

/-- A larger domain and more starting points reach more. -/
theorem Reaches.mono {next : Slot → List Slot} {domain domain' start start' : List Slot}
    (hd : domain ⊆ domain') (hs : ∀ x ∈ start, x ∈ domain → Reaches next domain' start' x)
    {x : Slot} (h : Reaches next domain start x) : Reaches next domain' start' x := by
  induction h with
  | here hx hxd => exact hs _ hx hxd
  | step _ hy hyd ih => exact .step ih hy (hd hyd)

/-- Taking `x` out of the domain and its successors into the start loses `x` only. -/
theorem Reaches.remove {next : Slot → List Slot} {domain pending : List Slot} {x y : Slot}
    (h : Reaches next domain (x :: pending) y) (hy : y ≠ x) :
    Reaches next (domain.erase x) (pending ++ next x) y := by
  induction h with
  | here hs hd =>
    have hp := (List.mem_cons.mp hs).resolve_left hy
    exact .here (List.mem_append_left _ hp) ((List.mem_erase_of_ne hy).mpr hd)
  | @step w y _ hw hd ih =>
    have hd' := (List.mem_erase_of_ne hy).mpr hd
    by_cases e : w = x
    · exact .here (List.mem_append_right _ (e ▸ hw)) hd'
    · exact .step (ih e) hw hd'

/-- **The list holds exactly what can be reached.** -/
theorem mem_reach_iff (next : Slot → List Slot) (domain pending : List Slot) (y : Slot) :
    y ∈ reach next domain pending ↔ Reaches next domain pending y := by
  fun_induction reach next domain pending with
  | case1 domain =>
    constructor
    · simp
    · intro h
      have none : ∀ {z}, Reaches next domain [] z → False := by
        intro z hz
        induction hz with
        | here hs _ => cases hs
        | step _ _ _ ih => exact ih
      exact (none h).elim
  | case2 domain x pending hx ih =>
    have self : Reaches next domain (x :: pending) x := .here List.mem_cons_self hx
    rw [List.mem_cons, ih]
    constructor
    · rintro (rfl | h)
      · exact self
      · refine Reaches.mono List.erase_subset ?_ h
        intro z hz hzd
        have hzd' := List.mem_of_mem_erase hzd
        rcases List.mem_append.mp hz with hz | hz
        · exact .here (List.mem_cons_of_mem _ hz) hzd'
        · exact .step self hz hzd'
    · intro h
      by_cases e : y = x
      · exact .inl e
      · exact .inr (h.remove e)
  | case3 domain x pending hx ih =>
    rw [ih]
    constructor
    · exact Reaches.mono (fun _ h => h) fun z hz hzd => .here (List.mem_cons_of_mem _ hz) hzd
    · refine Reaches.mono (fun _ h => h) fun z hz hzd => ?_
      rcases List.mem_cons.mp hz with rfl | hz
      · exact absurd hzd hx
      · exact .here hz hzd

theorem reach_subset {next : Slot → List Slot} {domain pending : List Slot} :
    reach next domain pending ⊆ domain :=
  fun y hy => ((mem_reach_iff next domain pending y).mp hy).mem_domain

/-- Nothing is listed twice. -/
theorem nodup_reach (next : Slot → List Slot) (domain pending : List Slot) (hd : domain.Nodup) :
    (reach next domain pending).Nodup := by
  fun_induction reach next domain pending with
  | case1 => exact List.nodup_nil
  | case2 domain x pending hx ih =>
    refine List.nodup_cons.mpr ⟨fun h => ?_, ih (hd.erase x)⟩
    exact (List.Nodup.not_mem_erase hd) (reach_subset h)
  | case3 domain x pending hx ih => exact ih hd

end ValueHeap
