/-
# What the reverse encoders put in front of the buffer

`Emits k m a bs j`: started with room for `k` octets, the encoder `m` returns `a`, puts exactly the octets `bs` in
front of what has been written, and leaves room for `j`, whatever the buffer held and however often it has to grow. It
fails only when an allocation is refused.
-/
import Priot.Asn01.Rbuild

namespace Priot.Asn01

open List

/-! ## running an encoder -/

/-- The result of an encoder with the buffer it leaves. -/
def Rb.exec {α : Type} (m : Rb α) (s : RBuf) : Except Unit α × RBuf := (ExceptT.run m).run s

section exec

variable {α β : Type} (s s' : RBuf)

@[simp] theorem exec_pure (a : α) : (pure a : Rb α).exec s = (.ok a, s) := rfl

@[simp] theorem exec_get : (get : Rb RBuf).exec s = (.ok s, s) := rfl

@[simp] theorem exec_set : (set s' : Rb Unit).exec s = (.ok (), s') := rfl

@[simp] theorem exec_modify (f : RBuf → RBuf) : (modify f : Rb Unit).exec s = (.ok (), f s) := rfl

theorem exec_bind (m : Rb α) (f : α → Rb β) :
    (m >>= f).exec s = match m.exec s with
      | (.ok a, s') => (f a).exec s'
      | (.error e, s') => (.error e, s') := by
  simp only [Rb.exec, ExceptT.run_bind, StateT.run_bind]
  rcases h : StateT.run (ExceptT.run m) s with ⟨r, s'⟩
  cases r <;> rfl

theorem exec_bind_error {m : Rb α} {f : α → Rb β} {e : Unit} (h : m.exec s = (.error e, s')) :
    (m >>= f).exec s = (.error e, s') := by
  rw [exec_bind, h]

theorem exec_bind_ok {m : Rb α} {f : α → Rb β} {a : α} (h : m.exec s = (.ok a, s')) :
    (m >>= f).exec s = (f a).exec s' := by
  rw [exec_bind, h]

theorem exec_bind_eq_ok {m : Rb α} {f : α → Rb β} {b : β} (h : (m >>= f).exec s = (.ok b, s')) :
    ∃ a s₁, m.exec s = (.ok a, s₁) ∧ (f a).exec s₁ = (.ok b, s') := by
  rcases hr : m.exec s with ⟨e | a, s₁⟩
  · rw [exec_bind_error s s₁ hr] at h
    simp at h
  · exact ⟨a, s₁, rfl, by rwa [exec_bind_ok s s₁ hr] at h⟩

end exec

/-! ## the rule format -/

/-- Every request for memory will be granted. -/
def RBuf.Granted (s : RBuf) : Prop := s.r = true ∧ ∀ n, s.alloc.get n = true

/-- There is room for `k` octets in front of those written. -/
def RBuf.Room (s : RBuf) (k : Nat) : Prop := s.offset + k ≤ s.pkt.length

theorem RBuf.Room.mono {s : RBuf} {j k : Nat} (h : s.Room k) (hjk : j ≤ k) : s.Room j := by
  rw [RBuf.Room] at h ⊢
  omega

theorem RBuf.Room.out_length {s : RBuf} {k : Nat} (h : s.Room k) : s.out.length = s.offset := by
  rw [RBuf.Room] at h
  rw [RBuf.out, length_drop]
  omega

/-- What `Emits` says of one start buffer. -/
def EmitsAt {α : Type} (m : Rb α) (s : RBuf) (a : α) (bs : List UInt8) (j : Nat) : Prop :=
  match m.exec s with
  | (.ok a', s') => a' = a ∧ s'.Room j ∧ s'.out = bs ++ s.out ∧ (s.Granted → s'.Granted)
  | (.error _, _) => ¬ s.Granted

def Emits {α : Type} (k : Nat) (m : Rb α) (a : α) (bs : List UInt8) (j : Nat) : Prop :=
  ∀ s : RBuf, s.Room k → EmitsAt m s a bs j

section rules

variable {α β : Type} {s : RBuf} {m : Rb α} {f : α → Rb β} {a : α} {b : β}
  {bs c : List UInt8} {i j k : Nat}

theorem EmitsAt.of_ok {s' : RBuf} (hm : m.exec s = (.ok a, s')) (hroom : s'.Room j)
    (hout : s'.out = bs ++ s.out) (hgr : s.Granted → s'.Granted) : EmitsAt m s a bs j := by
  rw [EmitsAt, hm]
  exact ⟨rfl, hroom, hout, hgr⟩

theorem EmitsAt.bind (hm : EmitsAt m s a bs j)
    (hf : ∀ s' : RBuf, s'.Room j → s'.out = bs ++ s.out → EmitsAt (f a) s' b c i) :
    EmitsAt (m >>= f) s b (c ++ bs) i := by
  rw [EmitsAt] at hm ⊢
  rcases hr : m.exec s with ⟨⟨⟩ | a', s'⟩
  · rw [hr] at hm
    rw [exec_bind_error s s' hr]
    exact hm
  · rw [hr] at hm
    obtain ⟨rfl, hroom, hout, hgr⟩ := hm
    rw [exec_bind_ok s s' hr]
    have h := hf s' hroom hout
    rw [EmitsAt] at h
    rcases hr' : (f a').exec s' with ⟨⟨⟩ | b', s''⟩
    · rw [hr'] at h
      exact fun hg => h (hgr hg)
    · rw [hr'] at h
      obtain ⟨hb, hroom', hout', hgr'⟩ := h
      exact ⟨hb, hroom', by rw [hout', hout, append_assoc], fun hg => hgr' (hgr hg)⟩

theorem EmitsAt.seq {m : Rb Unit} {n : Rb β} (hm : EmitsAt m s () bs j)
    (hn : ∀ s' : RBuf, s'.Room j → s'.out = bs ++ s.out → EmitsAt n s' b c i) :
    EmitsAt (do m; n) s b (c ++ bs) i :=
  hm.bind hn

theorem EmitsAt.bind_nil (hm : EmitsAt m s a [] j)
    (hf : ∀ s' : RBuf, s'.Room j → s'.out = s.out → EmitsAt (f a) s' b c i) : EmitsAt (m >>= f) s b c i := by
  have h := hm.bind (c := c) fun s' hs' hout => hf s' hs' (by rwa [nil_append] at hout)
  rwa [append_nil] at h

theorem Emits.bind (hm : Emits k m a bs j) (hf : Emits j (f a) b c i) : Emits k (m >>= f) b (c ++ bs) i :=
  fun s hs => (hm s hs).bind fun s' hs' _ => hf s' hs'

theorem Emits.seq {m : Rb Unit} {n : Rb β} (hm : Emits k m () bs j) (hn : Emits j n b c i) :
    Emits k (do m; n) b (c ++ bs) i :=
  hm.bind hn

theorem Emits.bind_nil (hm : Emits k m a [] j) (hf : Emits j (f a) b c i) : Emits k (m >>= f) b c i :=
  fun s hs => (hm s hs).bind_nil fun s' hs' _ => hf s' hs'

theorem EmitsAt.mono (h : EmitsAt m s a bs j) (hij : i ≤ j) : EmitsAt m s a bs i := by
  rw [EmitsAt] at h ⊢
  rcases hr : m.exec s with ⟨⟨⟩ | a', s'⟩
  · rw [hr] at h
    exact h
  · rw [hr] at h
    obtain ⟨ha, hroom, hrest⟩ := h
    exact ⟨ha, hroom.mono hij, hrest⟩

theorem Emits.mono (h : Emits k m a bs j) (hij : i ≤ j) : Emits k m a bs i :=
  fun s hs => (h s hs).mono hij

theorem emits_pure : Emits k (pure a : Rb α) a [] k :=
  fun _ hs => .of_ok rfl hs rfl id

theorem EmitsAt.get {g : RBuf → Rb β} (h : EmitsAt (g s) s b bs j) : EmitsAt (get >>= g) s b bs j := by
  rw [EmitsAt] at h ⊢
  rwa [exec_bind_ok s s (exec_get s)]

theorem emits_get {g : RBuf → Rb β} (h : ∀ s : RBuf, s.Room k → EmitsAt (g s) s b bs j) : Emits k (get >>= g) b bs j :=
  fun s hs => (h s hs).get

theorem offset_eq {s' : RBuf} (hs : s.Room k) (hs' : s'.Room j) (hout : s'.out = bs ++ s.out) :
    s'.offset = s.offset + bs.length := by
  rw [← hs'.out_length, ← hs.out_length, hout, length_append, Nat.add_comm]

theorem Emits.of_exec {s' : RBuf} {a' : α} (h : Emits k m a bs j) (hs : s.Room k)
    (hm : m.exec s = (.ok a', s')) : a' = a ∧ s'.Room j ∧ s'.out = bs ++ s.out := by
  have hat := h s hs
  rw [EmitsAt, hm] at hat
  exact ⟨hat.1, hat.2.1, hat.2.2.1⟩

theorem Emits.granted (h : Emits k m a bs j) (hs : s.Room k) (hg : s.Granted) :
    ∃ s', m.exec s = (.ok a, s') ∧ s'.Room j ∧ s'.out = bs ++ s.out ∧ s'.Granted := by
  have hat := h s hs
  rw [EmitsAt] at hat
  rcases hr : m.exec s with ⟨⟨⟩ | a', s'⟩
  · rw [hr] at hat
    exact absurd hg hat
  · rw [hr] at hat
    obtain ⟨rfl, hroom, hout, hgr⟩ := hat
    exact ⟨s', rfl, hroom, hout, hgr hg⟩

end rules

/-- The encoder fails on every buffer. -/
def Refuses {α : Type} (m : Rb α) : Prop := ∀ s, ∃ s', m.exec s = (.error (), s')

theorem Refuses.not_ok {α : Type} {m : Rb α} (h : Refuses m) {s s' : RBuf} {a : α} : m.exec s ≠ (.ok a, s') := by
  obtain ⟨s₁, hs₁⟩ := h s
  rw [hs₁]
  simp

theorem refuses_throw {α : Type} : Refuses (throw () : Rb α) := fun s => ⟨s, rfl⟩

theorem Refuses.bind {α β : Type} {m : Rb α} {f : α → Rb β} (h : Refuses m) : Refuses (m >>= f) :=
  fun s => (h s).imp fun s' hs' => exec_bind_error s s' hs'

theorem refuses_bind {α β : Type} {m : Rb α} {f : α → Rb β} (h : ∀ a, Refuses (f a)) : Refuses (m >>= f) := by
  intro s
  rcases hr : m.exec s with ⟨⟨⟩ | a, s'⟩
  · exact ⟨s', exec_bind_error s s' hr⟩
  · exact (h a s').imp fun s'' hs'' => by rw [exec_bind_ok s s' hr, hs'']

/-! ## room -/

theorem reallocIncrease_ge (n : Nat) : n + 256 ≤ reallocIncrease n := by
  rw [reallocIncrease]
  split
  · omega
  · split <;> omega

theorem emits_realloc : Emits k realloc () [] (k + 256) := by
  refine emits_get fun s hs => ?_
  by_cases hr : s.r = true
  · by_cases ha : s.alloc.head = true
    · have hinc := reallocIncrease_ge s.pkt.length
      rw [RBuf.Room] at hs
      rw [if_pos hr, if_pos ha]
      refine .of_ok (exec_set _ _) ?_ ?_ fun hg => ⟨hr, fun n => hg.2 (n + 1)⟩
      · simp only [RBuf.Room, length_append, length_replicate]
        rw [Nat.sub_add_cancel (by linarith)]
        linarith
      · simp only [RBuf.out, length_append, length_replicate, nil_append]
        rw [drop_append, length_replicate, drop_eq_nil_of_le
          (by rw [length_replicate]; omega), nil_append]
        congr 1
        omega
    · rw [if_pos hr, if_neg ha]
      exact fun hg => ha (hg.2 0)
  · rw [if_neg hr]
    exact fun hg => hr hg.1

theorem emits_room1 : Emits 0 room1 () [] 1 := by
  refine emits_get fun s hs => ?_
  split
  · exact ((emits_realloc s hs).mono (by omega))
  · refine .of_ok rfl ?_ rfl id
    rw [RBuf.Room] at hs ⊢
    omega

theorem emits_roomFor (n fuel : Nat) (h : n ≤ 256 * fuel + k) : Emits k (roomFor n fuel) () [] n := by
  induction fuel generalizing k with
  | zero => exact emits_pure.mono (by omega)
  | succ fuel ih =>
    refine emits_get fun s hs => ?_
    split
    · have hrec : Emits (k + 256) (roomFor n fuel) () [] n := ih (by omega)
      exact emits_realloc.bind_nil hrec s hs
    · refine .of_ok rfl ?_ rfl id
      rw [RBuf.Room] at hs ⊢
      omega

/-! ## octets -/

theorem emits_putBytes (bs : List UInt8) : Emits (bs.length + k) (putBytes bs) () bs k := by
  intro s hs
  refine .of_ok rfl ?_ ?_ id
  · simp only [RBuf.Room] at hs ⊢
    simp only [length_append, length_take, length_drop]
    omega
  · rw [RBuf.Room] at hs
    simp only [RBuf.out, length_append, length_take, length_drop]
    set start := s.pkt.length - (s.offset + bs.length) with hstart
    have hlen : min start s.pkt.length + bs.length + (s.pkt.length - (start + bs.length))
        - (s.offset + bs.length) = start := by omega
    have htake : (s.pkt.take start).length = start := by
      rw [length_take]
      omega
    rw [hlen, append_assoc, drop_left' htake]
    congr 2
    omega

theorem put_eq_putBytes (s : RBuf) (b : UInt8) (hs : s.Room 1) : (put b).exec s = (putBytes [b]).exec s := by
  rw [RBuf.Room] at hs
  simp only [put, putBytes, exec_modify, length_singleton, Prod.mk.injEq, true_and,
    RBuf.mk.injEq, and_true]
  rw [set_eq_take_append_cons_drop, if_pos (by omega), append_assoc]
  rfl

theorem emits_put (b : UInt8) : Emits (k + 1) (put b) () [b] k := by
  intro s hs
  have h := emits_putBytes (k := k) [b] s (by rw [length_singleton]; exact hs.mono (by omega))
  rw [EmitsAt] at h ⊢
  rwa [put_eq_putBytes s b (hs.mono (by omega))]

theorem emits_room1_put {β : Type} {f : Rb β} {b : β} {c : List UInt8} {j : Nat} (o : UInt8)
    (hf : Emits 0 f b c j) : Emits 0 (do room1; put o; f) b (c ++ [o]) j :=
  emits_room1.bind_nil ((emits_put o).bind hf)

end Priot.Asn01
