/-
# Cutting a stream into frames

A rule looks at what has been received and says where the first frame ends. If what it has decided is
not changed by what arrives later, then the frames do not depend on how the stream arrives.
-/
import Mathlib.Data.List.Basic

namespace Framing

open List

/-! ## rules -/

/-- What a rule says of the elements received: the first frame is not complete, the stream is broken,
or the first frame has `n` elements. -/
inductive Verdict
  | wait
  | bad
  | frame (n : Nat)
  deriving DecidableEq, Repr

/-- A rule whose decisions are final. A frame is recognised by its own elements. -/
structure Rule (α : Type) where
  next : List α → Verdict
  next_nil : next [] = .wait
  stable : ∀ x y, next x ≠ .wait → next (x ++ y) = next x
  frame_pos : ∀ {x n}, next x = .frame n → 0 < n
  frame_le : ∀ {x n}, next x = .frame n → n ≤ x.length
  frame_take : ∀ {x n}, next x = .frame n → next (x.take n) = .frame n

/-- Frames, what is left behind them, and whether the stream is broken there. -/
structure Cut (α : Type) where
  frames : List (List α)
  rest : List α
  broken : Bool

variable {α : Type} (fr : Rule α)

/-- Cut off frames, `fuel` at most. -/
def Rule.drain : Nat → List α → Cut α
  | 0, x => ⟨[], x, false⟩
  | fuel + 1, x =>
    match fr.next x with
    | .wait => ⟨[], x, false⟩
    | .bad => ⟨[], x, true⟩
    | .frame n =>
      let c := drain fuel (x.drop n)
      { c with frames := x.take n :: c.frames }

/-- Cut off all frames. -/
def Rule.cut (x : List α) : Cut α := fr.drain x.length x

/-- The stream `t` is what is left of `s` when some frames have been cut off. -/
inductive Rule.Boundary : List α → List α → Prop
  | refl {s : List α} : Boundary s s
  | step {s t : List α} {n : Nat} : fr.next s = .frame n → Boundary (s.drop n) t → Boundary s t

variable {fr}

/-! ## the rules of `cut` -/

variable {x : List α}

theorem Rule.frame_drop_lt {n : Nat} (h : fr.next x = .frame n) : (x.drop n).length < x.length := by
  have hpos := fr.frame_pos h
  have hle := fr.frame_le h
  rw [length_drop]
  omega

/-- Induction along the frames of a stream. -/
theorem Rule.frame_induction (fr : Rule α) {P : List α → Prop}
    (hstep : ∀ x, (∀ n, fr.next x = .frame n → P (x.drop n)) → P x) (x : List α) : P x := by
  induction h : x.length using Nat.strongRecOn generalizing x with
  | ind k ih =>
    subst h
    exact hstep x fun n hn => ih _ (Rule.frame_drop_lt hn) _ rfl

/-- Any fuel that is not less than the length will do. -/
theorem Rule.drain_fuel {fuel fuel' : Nat} (h : x.length ≤ fuel) (h' : x.length ≤ fuel') :
    fr.drain fuel x = fr.drain fuel' x := by
  induction fuel generalizing x fuel' with
  | zero =>
    obtain rfl : x = [] := length_eq_zero_iff.mp (by omega)
    cases fuel' with
    | zero => rfl
    | succ fuel' =>
      unfold drain
      rw [fr.next_nil]
  | succ fuel ih =>
    cases fuel' with
    | zero =>
      obtain rfl : x = [] := length_eq_zero_iff.mp (by omega)
      unfold drain
      rw [fr.next_nil]
    | succ fuel' =>
      unfold drain
      cases hnext : fr.next x with
      | wait => rfl
      | bad => rfl
      | frame n =>
        have hlt := Rule.frame_drop_lt hnext
        have hrec : fr.drain fuel (x.drop n) = fr.drain fuel' (x.drop n) := ih (by omega) (by omega)
        simp only [hrec]

theorem Rule.cut_of_wait (h : fr.next x = .wait) : fr.cut x = ⟨[], x, false⟩ := by
  unfold cut
  cases hx : x.length with
  | zero => rfl
  | succ k =>
    unfold drain
    rw [h]

theorem Rule.cut_of_bad (h : fr.next x = .bad) : fr.cut x = ⟨[], x, true⟩ := by
  unfold cut
  cases hx : x.length with
  | zero =>
    obtain rfl := length_eq_zero_iff.mp hx
    rw [fr.next_nil] at h
    cases h
  | succ k =>
    unfold drain
    rw [h]

theorem Rule.cut_of_frame {n : Nat} (h : fr.next x = .frame n) :
    fr.cut x = { fr.cut (x.drop n) with frames := x.take n :: (fr.cut (x.drop n)).frames } := by
  have hlt := Rule.frame_drop_lt h
  unfold cut
  obtain ⟨k, hk⟩ : ∃ k, x.length = k + 1 := ⟨x.length - 1, by omega⟩
  rw [hk]
  conv_lhs => unfold drain
  rw [h]
  have hfuel : fr.drain k (x.drop n) = fr.drain (x.drop n).length (x.drop n) :=
    Rule.drain_fuel (by omega) (Nat.le_refl _)
  simp only [hfuel]

/-- What is left has no frame in it. -/
theorem Rule.next_cut_rest (fr : Rule α) (x : List α) :
    fr.next (fr.cut x).rest = if (fr.cut x).broken then .bad else .wait := by
  induction x using Rule.frame_induction fr with
  | _ x ih =>
    cases h : fr.next x with
    | wait =>
      rw [Rule.cut_of_wait h]
      exact h
    | bad =>
      rw [Rule.cut_of_bad h]
      exact h
    | frame n =>
      rw [Rule.cut_of_frame h]
      exact ih n h

/-- Nothing is lost and nothing is moved. -/
theorem Rule.cut_flatten (fr : Rule α) (x : List α) : (fr.cut x).frames.flatten ++ (fr.cut x).rest = x := by
  induction x using Rule.frame_induction fr with
  | _ x ih =>
    cases h : fr.next x with
    | wait =>
      rw [Rule.cut_of_wait h]
      rfl
    | bad =>
      rw [Rule.cut_of_bad h]
      rfl
    | frame n =>
      rw [Rule.cut_of_frame h]
      simp only [flatten_cons, append_assoc]
      rw [ih n h, take_append_drop]

/-- Every frame has been recognised as one. -/
theorem Rule.next_of_mem_frames {f : List α} (hf : f ∈ (fr.cut x).frames) : fr.next f = .frame f.length := by
  induction x using Rule.frame_induction fr with
  | _ x ih =>
    cases h : fr.next x with
    | wait =>
      rw [Rule.cut_of_wait h] at hf
      cases hf
    | bad =>
      rw [Rule.cut_of_bad h] at hf
      cases hf
    | frame n =>
      rw [Rule.cut_of_frame h] at hf
      rcases hf with _ | ⟨_, hf⟩
      · rw [length_take, Nat.min_eq_left (fr.frame_le h)]
        exact fr.frame_take h
      · exact ih n h hf

/-! ## how the stream arrives does not matter -/

/-- A stream that is broken stays broken. -/
theorem Rule.cut_append_of_broken (h : (fr.cut x).broken = true) (y : List α) :
    fr.cut (x ++ y) = ⟨(fr.cut x).frames, (fr.cut x).rest ++ y, true⟩ := by
  induction x using Rule.frame_induction fr with
  | _ x ih =>
    cases hnext : fr.next x with
    | wait =>
      rw [Rule.cut_of_wait hnext] at h
      cases h
    | bad =>
      have hnext' : fr.next (x ++ y) = .bad := (fr.stable x y (by simp [hnext])).trans hnext
      rw [Rule.cut_of_bad hnext, Rule.cut_of_bad hnext']
    | frame n =>
      have hnext' : fr.next (x ++ y) = .frame n := (fr.stable x y (by simp [hnext])).trans hnext
      have hle := fr.frame_le hnext
      rw [Rule.cut_of_frame hnext] at h ⊢
      rw [Rule.cut_of_frame hnext', drop_append_of_le_length hle, ih n hnext h,
        take_append_of_le_length hle]

/-- What is left of the first part goes in front of the second. -/
theorem Rule.cut_append (h : (fr.cut x).broken = false) (y : List α) :
    fr.cut (x ++ y) = { fr.cut ((fr.cut x).rest ++ y) with
      frames := (fr.cut x).frames ++ (fr.cut ((fr.cut x).rest ++ y)).frames } := by
  induction x using Rule.frame_induction fr with
  | _ x ih =>
    cases hnext : fr.next x with
    | wait => rw [Rule.cut_of_wait hnext, nil_append]
    | bad =>
      rw [Rule.cut_of_bad hnext] at h
      cases h
    | frame n =>
      have hnext' : fr.next (x ++ y) = .frame n := (fr.stable x y (by simp [hnext])).trans hnext
      have hle := fr.frame_le hnext
      rw [Rule.cut_of_frame hnext] at h ⊢
      rw [Rule.cut_of_frame hnext', drop_append_of_le_length hle, ih n hnext h,
        take_append_of_le_length hle]
      rfl

/-! ## boundaries -/

theorem Rule.Boundary.trans {s t r : List α} (h : fr.Boundary s t) (h' : fr.Boundary t r) : fr.Boundary s r := by
  induction h with
  | refl => exact h'
  | step hnext _ ih => exact .step hnext (ih h')

theorem Rule.Boundary.append {s t : List α} (h : fr.Boundary s t) (y : List α) : fr.Boundary (s ++ y) (t ++ y) := by
  induction h with
  | refl => exact .refl
  | @step s t n hnext _ ih =>
    have hnext' : fr.next (s ++ y) = .frame n := (fr.stable s y (by simp [hnext])).trans hnext
    refine .step hnext' ?_
    rw [drop_append_of_le_length (fr.frame_le hnext)]
    exact ih

/-- What has been received without completing a frame is shorter than the frame. -/
theorem Rule.lt_of_wait {w c : List α} {n : Nat} (hw : fr.next w = .wait)
    (h : fr.next (w ++ c) = .frame n) : w.length < n := by
  by_contra hle
  have htake := fr.frame_take h
  rw [take_append_of_le_length (by omega)] at htake
  have hstable := fr.stable (w.take n) (w.drop n) (by simp [htake])
  rw [take_append_drop, htake, hw] at hstable
  cases hstable

/-- Behind the first frame there is nothing but what has just been received. -/
theorem Rule.Boundary.eq_or_le {w c t : List α} (hw : fr.next w = .wait)
    (h : fr.Boundary (w ++ c) t) : t = w ++ c ∨ t.length ≤ c.length := by
  have hlen : ∀ {s t : List α}, fr.Boundary s t → t.length ≤ s.length := by
    intro s t h
    induction h with
    | refl => exact Nat.le_refl _
    | step hnext _ ih =>
      have := Rule.frame_drop_lt hnext
      omega
  cases h with
  | refl => exact .inl rfl
  | step hnext hrest =>
    right
    have hlt := Rule.lt_of_wait hw hnext
    have := hlen hrest
    rw [length_drop, length_append] at this
    omega

/-- What is left of a part of the stream is, with what follows, what is left of the whole. -/
theorem Rule.boundary_rest (fr : Rule α) (x y : List α) : fr.Boundary (x ++ y) ((fr.cut x).rest ++ y) := by
  induction x using Rule.frame_induction fr with
  | _ x ih =>
    cases hnext : fr.next x with
    | wait =>
      rw [Rule.cut_of_wait hnext]
      exact .refl
    | bad =>
      rw [Rule.cut_of_bad hnext]
      exact .refl
    | frame n =>
      have hnext' : fr.next (x ++ y) = .frame n := (fr.stable x y (by simp [hnext])).trans hnext
      rw [Rule.cut_of_frame hnext]
      refine .step hnext' ?_
      rw [drop_append_of_le_length (fr.frame_le hnext)]
      exact ih n hnext

/-- What is left behind a frame is no more than what has just been received. -/
theorem Rule.cut_rest_le {w c : List α} (hw : fr.next w = .wait) (h : (fr.cut (w ++ c)).frames ≠ []) :
    (fr.cut (w ++ c)).rest.length ≤ c.length := by
  have hboundary := fr.boundary_rest (w ++ c) []
  rw [append_nil, append_nil] at hboundary
  rcases hboundary.eq_or_le hw with heq | hle
  · have hall := fr.cut_flatten (w ++ c)
    have hlen := congrArg List.length hall
    rw [heq, length_append] at hlen
    obtain ⟨f, hf⟩ := exists_mem_of_ne_nil _ h
    have hnext := Rule.next_of_mem_frames hf
    have hpos := fr.frame_pos hnext
    have hle : f.length ≤ (fr.cut (w ++ c)).frames.flatten.length :=
      (sublist_flatten_of_mem hf).length_le
    omega
  · exact hle

/-- A frame is cut off whatever stands behind it. -/
theorem Rule.next_take_append {s : List α} {n : Nat} (h : fr.next s = .frame n) (y : List α) :
    fr.next (s.take n ++ y) = .frame n := by
  have htake := fr.frame_take h
  rw [fr.stable _ y (by simp [htake]), htake]

theorem Rule.cut_take_append {s : List α} {n : Nat} (h : fr.next s = .frame n) (y : List α) :
    fr.cut (s.take n ++ y) = { fr.cut y with frames := s.take n :: (fr.cut y).frames } := by
  have hlen : (s.take n).length = n := by rw [length_take, Nat.min_eq_left (fr.frame_le h)]
  rw [Rule.cut_of_frame (Rule.next_take_append h y), drop_left' hlen, take_left' hlen]

/-- Frames that follow each other are cut off one by one. -/
theorem Rule.cut_frames {fs : List (List α)} (hfs : ∀ f ∈ fs, fr.next f = .frame f.length) :
    fr.cut fs.flatten = ⟨fs, [], false⟩ := by
  induction fs with
  | nil => exact Rule.cut_of_wait fr.next_nil
  | cons f fs ih =>
    have hcut := Rule.cut_take_append (hfs f mem_cons_self) fs.flatten
    rw [take_length, ih fun g hg => hfs g (mem_cons_of_mem _ hg)] at hcut
    exact hcut

/-- In a part of such a stream there are the first frames, and what is left begins the others. -/
theorem Rule.cut_part {fs : List (List α)} (hfs : ∀ f ∈ fs, fr.next f = .frame f.length) {x y : List α}
    (h : x ++ y = fs.flatten) : (fr.cut x).broken = false ∧
      ∃ later, fs = (fr.cut x).frames ++ later ∧ (fr.cut x).rest ++ y = later.flatten := by
  have hall := Rule.cut_frames hfs
  rw [← h] at hall
  have hwhole : (fr.cut x).broken = false := by
    by_contra hbroken
    rw [Rule.cut_append_of_broken ((Bool.not_eq_false _).mp hbroken)] at hall
    cases congrArg Cut.broken hall
  rw [Rule.cut_append hwhole] at hall
  refine ⟨hwhole, (fr.cut ((fr.cut x).rest ++ y)).frames, (congrArg Cut.frames hall).symm, ?_⟩
  have hflatten := fr.cut_flatten ((fr.cut x).rest ++ y)
  rw [congrArg Cut.rest hall, append_nil] at hflatten
  exact hflatten.symm

end Framing
