/-
# When a single request is answered correctly

The remote agent finds the first instance behind the name that it is sent: the first image behind the name asked for
exactly if the same instances lie behind both.
-/
import Priot.Proxy.Image

namespace Priot.Proxy

open Agent Lib OidStash List

/-! ## the remote agent -/

namespace RemoteAgent

variable {A : RemoteAgent} {x y : ObjId} {v : VarValue}

theorem mem_of_value (h : A.value x = some v) : (x, v) ∈ A.instances := by
  obtain ⟨l₁, l₂, hl, -⟩ := lookup_eq_some_iff.mp h
  rw [hl]
  exact mem_append_right l₁ mem_cons_self

theorem length_le_of_value (h : A.value x = some v) : x.length ≤ maxOidLen := A.fits _ (mem_of_value h)

theorem ne_null_of_value (h : A.value x = some v) (t : NullType) : v ≠ .null t := A.valued _ (mem_of_value h) t

theorem get_of_value (h : A.value x = some v) : A.get x = ⟨x, v⟩ := by rw [get, h, Option.getD_some]

theorem value_of_mem (h : x ∈ A.instances.map Prod.fst) : ∃ v, A.value x = some v := by
  obtain ⟨i, hi, rfl⟩ := mem_map.mp h
  exact Option.isSome_iff_exists.mp (lookup_isSome_iff.mpr ⟨i, hi, beq_self_eq_true i.1⟩)

theorem next_spec (A : RemoteAgent) (x : ObjId) : LeastOf (fun y => x < y ∧ ∃ v, A.value y = some v) (A.next x) := by
  refine (least_spec _).congr fun y => ?_
  rw [mem_filter, decide_eq_true_eq]
  constructor
  · rintro ⟨hy, hxy⟩
    exact ⟨hxy, value_of_mem hy⟩
  · rintro ⟨hxy, v, hv⟩
    exact ⟨mem_map_of_mem (f := Prod.fst) (mem_of_value hv), hxy⟩

theorem getNext_of_none (h : A.next x = none) : A.getNext x = ⟨x, .null .endOfMibView⟩ := by rw [getNext, h]

theorem getNext_of_some (h : A.next x = some y) (hv : A.value y = some v) : A.getNext x = ⟨y, v⟩ := by
  rw [getNext, h]
  exact get_of_value hv

end RemoteAgent

/-! ## names and images -/

variable {name base : ObjId} {A : RemoteAgent} {mode : Mode} {o q x s t : ObjId} {v : VarValue}

theorem remote_nil : remote name [] = name := if_pos rfl

theorem remote_of_ne_nil (h : base ≠ []) : remote name base = base := if_neg h

theorem back_remote_append (s : ObjId) : back name base (remote name base ++ s) = name ++ s := by
  unfold back remote
  split
  · rfl
  · rw [drop_left]

theorem image_append (h : A.value (remote name base ++ s) = some v) : Image name base A ⟨name ++ s, v⟩ := ⟨s, rfl, h⟩

theorem sought_getNext : Sought .getNext o x ↔ o < x := by rw [Sought, if_pos rfl]

theorem append_lt_of_outside (hlt : x < q) (h : ¬ x <+: q) (s : ObjId) : x ++ s < q := Beyond.append_lt ⟨hlt, h⟩ s

theorem not_lt_append (x s : ObjId) : ¬ x ++ s < x := List.not_lt.mpr le_append_left

/-! ## what is made of the response -/

theorem takenAs_outside {var : VariableList} (h : ¬ remote name base <+: var.name) :
    takenAs name base var = some .unanswered := if_neg h

theorem takenAs_exception (h : remote name base <+: x → (back name base x).length ≤ maxOidLen) (e : NullType) :
    takenAs name base ⟨x, .null e⟩ = some .unanswered := by
  by_cases hpre : remote name base <+: x
  · rw [takenAs, if_pos hpre, if_pos (h hpre)]
    rfl
  · exact takenAs_outside hpre

theorem takenAs_instance (h : A.value (remote name base ++ s) = some v) : takenAs name base ⟨remote name base ++ s, v⟩ =
      if (name ++ s).length ≤ maxOidLen then some (.answered ⟨name ++ s, v⟩) else none := by
  rw [takenAs, if_pos (prefix_append _ s), back_remote_append]
  by_cases hlen : (name ++ s).length ≤ maxOidLen
  · rw [if_pos hlen, if_pos hlen]
    cases v with
    | null t => exact absurd rfl (RemoteAgent.ne_null_of_value h t)
    | _ => rfl
  · rw [if_neg hlen, if_neg hlen]

theorem correct_unanswered : Correct name base A .getNext o .unanswered ↔ ∀ w, Image name base A w → ¬ o < w.name := by
  show (∀ w, Image name base A w → ¬ Sought .getNext o w.name) ↔ _
  exact forall₂_congr fun w _ => not_congr sought_getNext

/-! ## a GETNEXT -/

/-- The instances behind `q` below the base are those whose images are behind `o`, and nothing lies in between; or
something does, and there is no image behind `o`. -/
structure Aligned (name base : ObjId) (A : RemoteAgent) (q o : ObjId) : Prop where
  hidden : A.Between q (remote name base) → ∀ w, Image name base A w → ¬ o < w.name
  same : ¬ A.Between q (remote name base) → ∀ s v, A.value (remote name base ++ s) = some v →
    (q < remote name base ++ s ↔ o < name ++ s)

theorem unanswered_iff_aligned (hnone : A.Between q (remote name base) ∨
      ¬ A.Between q (remote name base) ∧ ∀ s v, A.value (remote name base ++ s) = some v → ¬ q < remote name base ++ s) :
    (∃ out, some Outcome.unanswered = some out ∧ Correct name base A .getNext o out) ↔
      Aligned name base A q o ∧ Short name base A o := by
  have hout : (∃ out, some Outcome.unanswered = some out ∧ Correct name base A .getNext o out) ↔
      ∀ w, Image name base A w → ¬ o < w.name := by
    rw [← correct_unanswered]
    constructor
    · rintro ⟨out, hout, h⟩
      exact Option.some.inj hout ▸ h
    · exact fun h => ⟨_, rfl, h⟩
  rw [hout]
  constructor
  · intro h
    refine ⟨⟨fun _ => h, fun hb s v hv => ?_⟩, fun v hv hlt => absurd hlt (h v hv)⟩
    rcases hnone with hbetween | ⟨-, hnone⟩
    · exact absurd hbetween hb
    · exact iff_of_false (hnone s v hv) (h ⟨name ++ s, v⟩ (image_append hv))
  · rintro ⟨hal, -⟩
    rcases hnone with hbetween | ⟨hb, hnone⟩
    · exact hal.hidden hbetween
    · rintro ⟨_, v⟩ ⟨s, rfl, hv⟩ hlt
      exact hnone s v hv ((hal.same hb s v hv).mpr hlt)

theorem not_between_of_least {y : ObjId} (h : LeastOf (fun y => q < y ∧ ∃ v, A.value y = some v) (some y))
    (hy : ¬ y < remote name base) : ¬ A.Between q (remote name base) := by
  rintro ⟨z, v, hv, hqz, hz⟩
  have hzy : ¬ z < y := h.2 z ⟨hqz, v, hv⟩
  exact hy (Std.lt_of_le_of_lt (List.not_lt.mp hzy) hz)

theorem answered_iff_aligned (h : LeastOf (fun y => q < y ∧ ∃ v, A.value y = some v) (some (remote name base ++ s)))
    (hv : A.value (remote name base ++ s) = some v) :
    (∃ out, (if (name ++ s).length ≤ maxOidLen then some (Outcome.answered ⟨name ++ s, v⟩) else none) = some out ∧
      Correct name base A .getNext o out) ↔ Aligned name base A q o ∧ Short name base A o := by
  have hb : ¬ A.Between q (remote name base) := not_between_of_least h (not_lt_append _ s)
  have hle : ∀ s' v', A.value (remote name base ++ s') = some v' → q < remote name base ++ s' → ¬ s' < s :=
    fun s' v' hv' hq hlt => h.2 _ ⟨hq, v', hv'⟩ (append_lt_append.mpr hlt)
  constructor
  · rintro ⟨out, hout, hc⟩
    by_cases hlen : (name ++ s).length ≤ maxOidLen
    · rw [if_pos hlen] at hout
      obtain rfl := Option.some.inj hout
      obtain ⟨-, hos, hleast⟩ := hc
      have hos : o < name ++ s := sought_getNext.mp hos
      have hleast : ∀ w, Image name base A w → o < w.name → ¬ w.name < name ++ s :=
        fun w hw how => hleast w hw (sought_getNext.mpr how)
      refine ⟨⟨fun hb' => absurd hb' hb, fun _ s' v' hv' => ⟨fun hq => ?_, fun ho => ?_⟩⟩, ?_⟩
      · have hss : name ++ s ≤ name ++ s' := append_left_le (List.not_lt.mp (hle s' v' hv' hq))
        exact Std.lt_of_lt_of_le hos hss
      · have hss : ¬ name ++ s' < name ++ s := hleast ⟨name ++ s', v'⟩ (image_append hv') ho
        rw [append_lt_append] at hss
        exact Std.lt_of_lt_of_le h.1.1 (append_left_le (List.not_lt.mp hss))
      · rintro ⟨_, v'⟩ ⟨s', rfl, hv'⟩ ho hl
        have hss : ¬ name ++ s' < name ++ s := hleast ⟨name ++ s', v'⟩ (image_append hv') ho
        have hss' : ¬ name ++ s < name ++ s' := hl ⟨name ++ s, v⟩ (image_append hv) hos
        rw [Std.le_antisymm (List.not_lt.mp hss') (List.not_lt.mp hss)]
        exact hlen
    · rw [if_neg hlen] at hout
      exact absurd hout (by simp)
  · rintro ⟨hal, hshort⟩
    have hos : o < name ++ s := (hal.same hb s v hv).mp h.1.1
    have hleast : ∀ w, Image name base A w → o < w.name → ¬ w.name < name ++ s := by
      rintro ⟨_, v'⟩ ⟨s', rfl, hv'⟩ ho hlt
      exact hle s' v' hv' ((hal.same hb s' v' hv').mpr ho) (append_lt_append.mp hlt)
    have hlen : (name ++ s).length ≤ maxOidLen := hshort ⟨name ++ s, v⟩ (image_append hv) hos hleast
    rw [if_pos hlen]
    exact ⟨_, rfl, image_append hv, sought_getNext.mpr hos,
      fun w hw how => hleast w hw (sought_getNext.mp how)⟩

theorem getNext_correct_iff (hq : remote name base <+: q → (back name base q).length ≤ maxOidLen) :
    (∃ out, takenAs name base (A.getNext q) = some out ∧ Correct name base A .getNext o out) ↔
      Aligned name base A q o ∧ Short name base A o := by
  have hnext := A.next_spec q
  cases hy : A.next q with
  | none =>
    rw [hy] at hnext
    rw [RemoteAgent.getNext_of_none hy, takenAs_exception hq]
    refine unanswered_iff_aligned (.inr ⟨?_, fun s v hv hlt => hnext _ ⟨hlt, v, hv⟩⟩)
    rintro ⟨z, v, hv, hqz, -⟩
    exact hnext z ⟨hqz, v, hv⟩
  | some y =>
    rw [hy] at hnext
    obtain ⟨hqy, v, hv⟩ := hnext.1
    rw [RemoteAgent.getNext_of_some hy hv]
    by_cases hpre : remote name base <+: y
    · obtain ⟨s, rfl⟩ := hpre
      rw [takenAs_instance hv]
      exact answered_iff_aligned hnext hv
    · have hout : takenAs name base ⟨y, v⟩ = some .unanswered := takenAs_outside hpre
      rw [hout]
      apply unanswered_iff_aligned
      by_cases hlt : y < remote name base
      · exact .inl ⟨y, v, hv, hqy, hlt⟩
      · -- The instance found lies behind the whole subtree.
        refine .inr ⟨not_between_of_least hnext hlt, fun s v' hv' hq' => ?_⟩
        have hne : remote name base ≠ y := fun he => hpre (he ▸ prefix_refl _)
        have hgt : remote name base < y := Std.lt_of_le_of_ne (List.not_lt.mp hlt) hne
        exact hnext.2 _ ⟨hq', v', hv'⟩ (append_lt_of_outside hgt hpre s)

/-! ## the name that is sent -/

/-- Before the end of the registered subtree. -/
def BelowEnd (name o : ObjId) : Prop := o < name ∨ name <+: o

theorem lastBefore_lt (h : base ≠ []) : lastBefore base < base := by
  obtain ⟨init, last, rfl⟩ := eq_nil_or_concat base |>.resolve_left h
  rw [concat_eq_append, lastBefore, getLast?_concat, dropLast_concat]
  show (if last ≤ 1 then init else init ++ [last - 1, maxSubid]) < init ++ [last]
  by_cases hlast : last ≤ 1
  · rw [if_pos hlast]
    exact OidStash.lt_append_cons init last []
  · rw [if_neg hlast, append_lt_append]
    apply cons_lt_cons_iff.mpr
    left
    rw [UInt32.lt_iff_toNat_lt]
    have h1 : ¬ last.toNat ≤ 1 := fun h => hlast (UInt32.le_iff_toNat_le.mpr h)
    rw [UInt32.toNat_sub_of_le _ _ (UInt32.le_iff_toNat_le.mpr (by show 1 ≤ last.toNat; omega))]
    show last.toNat - 1 < last.toNat
    omega

theorem take_lt {k : Nat} (h : k < base.length) : base.take k < base := by
  have hdrop : base.drop k = base[k] :: base.drop (k + 1) := drop_eq_getElem_cons h
  have hlt := OidStash.lt_append_cons (base.take k) base[k] (base.drop (k + 1))
  rwa [← hdrop, take_append_drop] at hlt

theorem not_prefix_of_lt (h : q < base) : ¬ base <+: q := by
  rintro ⟨s, rfl⟩
  exact not_lt_append base s h

theorem asked_restart (hbase : base ≠ []) (h : o < base) : asked name base .getNext o = lastBefore base :=
  if_pos ⟨hbase, rfl, h⟩

theorem asked_nil : asked name [] mode o = o := by
  rw [asked, if_neg fun h => h.1 rfl, if_pos rfl]

theorem asked_of_le (hbase : base ≠ []) (h : mode = .getNext → ¬ o < base) (hle : name.length ≤ o.length) :
    asked name base mode o = base ++ o.drop name.length := by
  rw [asked, if_neg fun h' => h h'.2.1 h'.2.2, if_neg hbase]
  by_cases hlt : name.length < o.length
  · rw [if_pos hlt]
  · have heq : o.length = name.length := by omega
    rw [if_neg hlt, heq, Nat.add_sub_cancel_left, take_length, ← heq, drop_length, append_nil]

theorem asked_of_lt (hbase : base ≠ []) (h : ¬ o < base) (hlt : o.length < name.length) :
    asked name base .getNext o = base.take (o.length + base.length - name.length) := by
  rw [asked, if_neg fun h' => h h'.2.2, if_neg hbase, if_neg (by omega)]

theorem lt_append_of_outside (ho : BelowEnd name o) (h : ¬ name <+: o) (s : ObjId) : o < name ++ s :=
  Std.lt_of_lt_of_le (ho.resolve_right h) le_append_left

theorem aligned_of_before (hq : q < remote name base) (ho : ∀ w, Image name base A w → o < w.name) :
    Aligned name base A q o ↔ (A.Between q (remote name base) → ∀ w, ¬ Image name base A w) := by
  constructor
  · intro h hb w hw
    exact h.hidden hb w hw (ho w hw)
  · intro h
    refine ⟨fun hb w hw => absurd hw (h hb w), fun _ s v hv => iff_of_true ?_ ?_⟩
    · exact Std.lt_of_lt_of_le hq le_append_left
    · exact ho _ (image_append hv)

theorem image_lt_of_outside (ho : BelowEnd name o) (h : ¬ name <+: o) (w : VariableList)
    (hw : Image name base A w) : o < w.name := by
  obtain ⟨s, hs, -⟩ := hw
  rw [hs]
  exact lt_append_of_outside ho h s

theorem aligned_restart (hbase : base ≠ []) (h : o < base) :
    Aligned name base A (lastBefore base) o ↔ Reached name base A o := by
  have hlt : lastBefore base < base := lastBefore_lt hbase
  constructor
  · intro hal
    refine ⟨fun _ _ => ?_, fun hnil => absurd hnil hbase, fun _ hn => absurd h hn, fun _ hn => absurd h hn⟩
    by_cases hb : A.Between (lastBefore base) base
    · exact .inl ⟨hb, hal.hidden (by rwa [remote_of_ne_nil hbase])⟩
    · refine .inr ⟨hb, ?_⟩
      rintro ⟨_, v⟩ ⟨s, rfl, hv⟩
      refine (hal.same (by rwa [remote_of_ne_nil hbase]) s v hv).mp ?_
      rw [remote_of_ne_nil hbase]
      exact Std.lt_of_lt_of_le hlt le_append_left
  · intro hr
    rcases hr.restarted hbase h with ⟨hb, hnone⟩ | ⟨hb, hall⟩
    · exact ⟨fun _ => hnone, fun hb' => absurd (by rwa [remote_of_ne_nil hbase]) hb'⟩
    · refine ⟨fun hb' => absurd (by rwa [remote_of_ne_nil hbase] at hb') hb, fun _ s v hv => iff_of_true ?_ ?_⟩
      · rw [remote_of_ne_nil hbase]
        exact Std.lt_of_lt_of_le hlt le_append_left
      · exact hall _ (image_append hv)

theorem aligned_nil (ho : BelowEnd name o) : Aligned name [] A o o ↔ Reached name [] A o := by
  have hsame : ∀ s, (o < remote name [] ++ s ↔ o < name ++ s) := fun s => by rw [remote_nil]
  constructor
  · intro hal
    refine ⟨fun h => absurd rfl h, fun _ hpre hb w hw => ?_, fun h => absurd rfl h, fun h => absurd rfl h⟩
    exact hal.hidden (by rwa [remote_nil]) w hw (image_lt_of_outside ho hpre w hw)
  · intro hr
    refine ⟨fun hb w hw _ => ?_, fun _ s v _ => hsame s⟩
    rw [remote_nil] at hb
    by_cases hpre : name <+: o
    · obtain ⟨z, v, -, hoz, hz⟩ := hb
      exact absurd (Std.lt_trans hoz hz) (List.not_lt.mpr hpre.le)
    · exact hr.ahead rfl hpre hb w hw

theorem aligned_of_le (hbase : base ≠ []) (h : ¬ o < base) (ho : BelowEnd name o) (hle : name.length ≤ o.length) :
    Aligned name base A (base ++ o.drop name.length) o ↔ Reached name base A o := by
  have hb : ¬ A.Between (base ++ o.drop name.length) (remote name base) := by
    rw [remote_of_ne_nil hbase]
    rintro ⟨z, v, -, hz, hz'⟩
    exact not_lt_append base _ (Std.lt_trans hz hz')
  constructor
  · intro hal
    refine ⟨fun _ h' => absurd h' h, fun hnil => absurd hnil hbase, fun _ _ _ hlt => by omega, ?_⟩
    intro _ _ hpre _ s v hv
    have hsame := hal.same hb s v (by rwa [remote_of_ne_nil hbase])
    rw [remote_of_ne_nil hbase, append_lt_append] at hsame
    exact hsame.mpr (lt_append_of_outside ho hpre s)
  · intro hr
    refine ⟨fun hb' => absurd hb' hb, fun _ s v hv => ?_⟩
    rw [remote_of_ne_nil hbase] at hv ⊢
    rw [append_lt_append]
    by_cases hpre : name <+: o
    · obtain ⟨t, rfl⟩ := hpre
      rw [drop_left, append_lt_append]
    · exact iff_of_true (hr.beside hbase h hpre hle s v hv) (lt_append_of_outside ho hpre s)

theorem aligned_of_lt (hbase : base ≠ []) (h : ¬ o < base) (ho : BelowEnd name o) (hlt : o.length < name.length) :
    Aligned name base A (base.take (o.length + base.length - name.length)) o ↔ Reached name base A o := by
  have hpre : ¬ name <+: o := fun hpre => absurd hpre.length_le (by omega)
  have hpos : 0 < base.length := length_pos_iff.mpr hbase
  have hq : base.take (o.length + base.length - name.length) < remote name base := by
    rw [remote_of_ne_nil hbase]
    exact take_lt (by omega)
  rw [aligned_of_before hq (image_lt_of_outside ho hpre), remote_of_ne_nil hbase]
  constructor
  · intro hal
    exact ⟨fun _ h' => absurd h' h, fun hnil => absurd hnil hbase, fun _ _ _ _ => hal,
      fun _ _ _ hle => by omega⟩
  · exact fun hr => hr.shorter hbase h hpre hlt

/-! ## single requests -/

/-- What comes of a GETNEXT is right exactly if the search begins in the right place and ends at a name that is not too
long. -/
theorem result_getNext_iff (ho : BelowEnd name o) (hlen : o.length ≤ maxOidLen) :
    (∃ out, result name base A .getNext o = some out ∧ Correct name base A .getNext o out) ↔
      Reached name base A o ∧ Short name base A o := by
  have hresult : result name base A .getNext o = takenAs name base (A.getNext (asked name base .getNext o)) := rfl
  rw [hresult]
  by_cases hbase : base = []
  · subst hbase
    rw [asked_nil, getNext_correct_iff fun _ => ?_, aligned_nil ho]
    rw [back, if_pos rfl]
    exact hlen
  by_cases hlt : o < base
  · rw [asked_restart hbase hlt, getNext_correct_iff fun hpre => ?_, aligned_restart hbase hlt]
    rw [remote_of_ne_nil hbase] at hpre
    exact absurd hpre (not_prefix_of_lt (lastBefore_lt hbase))
  by_cases hle : name.length ≤ o.length
  · rw [asked_of_le hbase (fun _ => hlt) hle, getNext_correct_iff fun _ => ?_, aligned_of_le hbase hlt ho hle]
    have hback := @back_remote_append name base (o.drop name.length)
    rw [remote_of_ne_nil hbase] at hback
    rw [hback, length_append, length_drop]
    omega
  · have hshorter : o.length < name.length := by omega
    have hpos : 0 < base.length := length_pos_iff.mpr hbase
    rw [asked_of_lt hbase hlt hshorter, getNext_correct_iff fun hpre => ?_, aligned_of_lt hbase hlt ho hshorter]
    rw [remote_of_ne_nil hbase] at hpre
    exact absurd hpre (not_prefix_of_lt (take_lt (by omega)))

theorem result_get (hpre : name <+: o) (hlen : o.length ≤ maxOidLen) :
    ∃ out, result name base A .get o = some out ∧ Correct name base A .get o out := by
  obtain ⟨s, rfl⟩ := hpre
  have hasked : asked name base .get (name ++ s) = remote name base ++ s := by
    by_cases hbase : base = []
    · subst hbase
      rw [asked_nil, remote_nil]
    · have hget : Mode.get = .getNext → ¬ name ++ s < base := fun h => absurd h (by decide)
      rw [asked_of_le hbase hget (by rw [length_append]; omega), drop_left,
        remote_of_ne_nil hbase]
  have hresult : result name base A .get (name ++ s) = takenAs name base (A.get (remote name base ++ s)) := by
    rw [result, hasked]
    rfl
  have hsought : ∀ x, Sought .get (name ++ s) x ↔ x = name ++ s := fun x => by rw [Sought, if_neg (by decide)]
  rw [hresult]
  cases hv : A.value (remote name base ++ s) with
  | none =>
    refine ⟨.unanswered, ?_, ?_⟩
    · rw [RemoteAgent.get, hv]
      exact takenAs_exception (fun _ => by rw [back_remote_append]; exact hlen) _
    · rintro ⟨_, v⟩ ⟨t, rfl, hv'⟩ hs
      obtain rfl := append_cancel_left ((hsought _).mp hs)
      rw [hv] at hv'
      exact absurd hv' (by simp)
  | some v =>
    refine ⟨.answered ⟨name ++ s, v⟩, ?_, image_append hv, (hsought _).mpr rfl, fun w _ hw => ?_⟩
    · rw [RemoteAgent.get_of_value hv, takenAs_instance hv, if_pos hlen]
    · rw [(hsought _).mp hw]
      exact Std.lt_irrefl

end Priot.Proxy
