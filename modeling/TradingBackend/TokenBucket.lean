import Mathlib.Algebra.Order.Field.Basic
import Mathlib.Tactic.Linarith
import Mathlib.Tactic.Ring

/-!
# Token buckets

A bucket holds at most `cap` tokens and gains `rate` of them in a unit of
time. The gain is not counted before the next request: `refill` adds what
came in since `last`. A request takes a token, or is refused if there is
less than one.

`Metered s n b` is what a bucket says about the `n` requests allowed since
time `s`: with the tokens it has left they are no more than a full bucket
and what came in since then. A request keeps it (`Metered.request`), and so
does putting a full bucket in the place of one that has had the time to
fill up (`Metered.renew`).

`Reaches k t b` says that the bucket comes to `k` tokens by time `t`. Requests
that come out of order may take back what has come in, but not more than
that: by the time of the last of them there is no debt (`Reaches.request`).
-/

namespace TradingBackend

/-- A bucket: the tokens it had at time `last`. -/
@[ext]
structure TokenBucket (𝕜 : Type) where
  tokens : 𝕜
  last : 𝕜

namespace TokenBucket

variable {𝕜 : Type} [Field 𝕜] [LinearOrder 𝕜] {cap rate s now : 𝕜} {n : Nat}
  {b : TokenBucket 𝕜}

def full (cap now : 𝕜) : TokenBucket 𝕜 := ⟨cap, now⟩

/-- The bucket with what came in since `last`. -/
def refill (cap rate : 𝕜) (b : TokenBucket 𝕜) (now : 𝕜) : TokenBucket 𝕜 :=
  ⟨min cap (b.tokens + (now - b.last) * rate), now⟩

/-- A request at time `now` is allowed. -/
def Allows (cap rate : 𝕜) (b : TokenBucket 𝕜) (now : 𝕜) : Prop :=
  1 ≤ (b.refill cap rate now).tokens

instance (cap rate : 𝕜) (b : TokenBucket 𝕜) (now : 𝕜) : Decidable (b.Allows cap rate now) :=
  inferInstanceAs (Decidable (_ ≤ _))

def request (cap rate : 𝕜) (b : TokenBucket 𝕜) (now : 𝕜) : TokenBucket 𝕜 :=
  if b.Allows cap rate now then ⟨(b.refill cap rate now).tokens - 1, now⟩
  else b.refill cap rate now

/-- The tokens are between zero and the capacity. -/
structure Within (cap : 𝕜) (b : TokenBucket 𝕜) : Prop where
  nonneg : 0 ≤ b.tokens
  le_cap : b.tokens ≤ cap

/-- By time `t` there are `k` tokens, if none is taken before and the capacity
is not in the way. -/
def Reaches (rate k t : 𝕜) (b : TokenBucket 𝕜) : Prop := k ≤ b.tokens + (t - b.last) * rate

@[simp] theorem refill_last : (b.refill cap rate now).last = now := rfl

@[simp] theorem request_last : (b.request cap rate now).last = now := by
  unfold request
  split_ifs <;> rfl

theorem request_of_allows (h : b.Allows cap rate now) :
    b.request cap rate now = ⟨(b.refill cap rate now).tokens - 1, now⟩ := if_pos h

theorem request_of_not_allows (h : ¬b.Allows cap rate now) :
    b.request cap rate now = b.refill cap rate now := if_neg h

theorem within_full (hcap : 0 ≤ cap) : (full cap now).Within cap := ⟨hcap, le_rfl⟩

theorem Reaches.allows (h : b.Reaches rate 1 now) (hcap : 1 ≤ cap) : b.Allows cap rate now :=
  le_min hcap h

section

variable [IsStrictOrderedRing 𝕜]

theorem Within.refill (h : b.Within cap) (hrate : 0 ≤ rate) (hnow : b.last ≤ now) :
    (b.refill cap rate now).Within cap := by
  refine ⟨le_min (h.nonneg.trans h.le_cap) ?_, min_le_left ..⟩
  exact add_nonneg h.nonneg (mul_nonneg (sub_nonneg.mpr hnow) hrate)

theorem Within.request (h : b.Within cap) (hrate : 0 ≤ rate) (hnow : b.last ≤ now) :
    (b.request cap rate now).Within cap := by
  have hr := h.refill hrate hnow
  by_cases ha : b.Allows cap rate now
  · rw [request_of_allows ha]
    exact ⟨sub_nonneg.mpr ha, (sub_le_self _ zero_le_one).trans hr.le_cap⟩
  · rwa [request_of_not_allows ha]

theorem refill_full {created : 𝕜} (hrate : 0 ≤ rate) (hnow : created ≤ now) :
    (full cap created).refill cap rate now = full cap now := by
  have hle : cap ≤ cap + (now - created) * rate :=
    le_add_of_nonneg_right (mul_nonneg (sub_nonneg.mpr hnow) hrate)
  exact TokenBucket.ext (min_eq_left hle) rfl

/-- `n` requests were allowed since `s`; none if the bucket was last used
before. -/
structure Metered (cap rate s : 𝕜) (n : Nat) (b : TokenBucket 𝕜) : Prop where
  unused : b.last < s → n = 0
  spent : n + b.tokens ≤ cap + max 0 (b.last - s) * rate

theorem metered_zero (h : b.tokens ≤ cap) (hrate : 0 ≤ rate) : Metered cap rate s 0 b := by
  refine ⟨fun _ => rfl, ?_⟩
  have hgain : 0 ≤ max 0 (b.last - s) * rate := mul_nonneg (le_max_left ..) hrate
  rw [Nat.cast_zero, zero_add]
  exact h.trans (le_add_of_nonneg_right hgain)

theorem Metered.refill (h : Metered cap rate s n b) (hb : b.Within cap) (hrate : 0 ≤ rate)
    (hnow : b.last ≤ now) : Metered cap rate s n (b.refill cap rate now) := by
  refine ⟨fun hlt => h.unused (hnow.trans_lt hlt), ?_⟩
  by_cases hlast : b.last < s
  · rw [h.unused hlast]
    exact (metered_zero (hb.refill hrate hnow).le_cap hrate).spent
  · rw [not_lt] at hlast
    have hspent := h.spent
    rw [max_eq_right (sub_nonneg.mpr hlast)] at hspent
    have hmin : (b.refill cap rate now).tokens ≤ b.tokens + (now - b.last) * rate :=
      min_le_right ..
    rw [refill_last, max_eq_right (sub_nonneg.mpr (hlast.trans hnow))]
    calc n + (b.refill cap rate now).tokens
        ≤ n + b.tokens + (now - b.last) * rate := by linarith only [hmin]
      _ ≤ cap + (b.last - s) * rate + (now - b.last) * rate := by linarith only [hspent]
      _ = cap + (now - s) * rate := by ring

theorem Metered.request (h : Metered cap rate s n b) (hb : b.Within cap) (hrate : 0 ≤ rate)
    (hnow : b.last ≤ now) (hs : s ≤ now) :
    Metered cap rate s (n + if b.Allows cap rate now then 1 else 0)
      (b.request cap rate now) := by
  have hr := h.refill hb hrate hnow
  by_cases ha : b.Allows cap rate now
  · rw [if_pos ha, request_of_allows ha]
    refine ⟨fun hlt => absurd hs (not_le.mpr hlt), ?_⟩
    have hspent := hr.spent
    rw [refill_last] at hspent
    push_cast
    linarith only [hspent]
  · rw [if_neg ha, Nat.add_zero, request_of_not_allows ha]
    exact hr

/-- A bucket that has had the time to fill up may be replaced by a full
one. -/
theorem Metered.renew (h : Metered cap rate s n b) (hb : b.Within cap) (hrate : 0 ≤ rate)
    (hnow : b.last ≤ now) (hidle : cap ≤ (now - b.last) * rate) :
    Metered cap rate s n (full cap now) := by
  refine ⟨fun hlt => h.unused (hnow.trans_lt hlt), ?_⟩
  by_cases hlast : b.last < s
  · rw [h.unused hlast]
    exact (metered_zero le_rfl hrate).spent
  · rw [not_lt] at hlast
    have hspent := h.spent
    rw [max_eq_right (sub_nonneg.mpr hlast)] at hspent
    have hmax : (now - s) * rate ≤ max 0 (now - s) * rate :=
      mul_le_mul_of_nonneg_right (le_max_right ..) hrate
    have hn : (n : 𝕜) ≤ (now - s) * rate := by
      calc (n : 𝕜) ≤ n + b.tokens := le_add_of_nonneg_right hb.nonneg
        _ ≤ cap + (b.last - s) * rate := hspent
        _ ≤ (now - b.last) * rate + (b.last - s) * rate := by linarith only [hidle]
        _ = (now - s) * rate := by ring
    show (n : 𝕜) + cap ≤ cap + max 0 (now - s) * rate
    linarith only [hn, hmax]

/-- It does not matter when a full bucket was made. -/
theorem Metered.later {created : 𝕜} (h : Metered cap rate s n (full cap created)) (hcap : 0 ≤ cap)
    (hrate : 0 ≤ rate) (hnow : created ≤ now) : Metered cap rate s n (full cap now) := by
  rw [← refill_full hrate hnow]
  exact h.refill (within_full hcap) hrate hnow

theorem Metered.le (h : Metered cap rate s n b) (hb : b.Within cap) (hrate : 0 ≤ rate) {t : 𝕜}
    (hs : s ≤ t) (ht : b.last ≤ t) : (n : 𝕜) ≤ cap + (t - s) * rate := by
  have hmax : max 0 (b.last - s) * rate ≤ (t - s) * rate :=
    mul_le_mul_of_nonneg_right
      (max_le (sub_nonneg.mpr hs) (sub_le_sub_right ht s)) hrate
  linarith only [h.spent, hb.nonneg, hmax]

variable {k k' t t' : 𝕜}

theorem Reaches.wait (h : b.Reaches rate k t) (hwait : k' ≤ k + (t' - t) * rate) :
    b.Reaches rate k' t' :=
  calc k' ≤ k + (t' - t) * rate := hwait
    _ ≤ b.tokens + (t - b.last) * rate + (t' - t) * rate := add_le_add_left h _
    _ = b.tokens + (t' - b.last) * rate := by ring

theorem Reaches.later (h : b.Reaches rate k t) (hrate : 0 ≤ rate) (ht : t ≤ t') :
    b.Reaches rate k t' :=
  h.wait (le_add_of_nonneg_right (mul_nonneg (sub_nonneg.mpr ht) hrate))

theorem reaches_full (hk : k ≤ cap) (hrate : 0 ≤ rate) (hnow : now ≤ t) :
    (full cap now).Reaches rate k t :=
  hk.trans (le_add_of_nonneg_right (mul_nonneg (sub_nonneg.mpr hnow) hrate))

theorem Reaches.refill (h : b.Reaches rate 0 t) (hcap : 0 ≤ cap) (hrate : 0 ≤ rate)
    (hnow : now ≤ t) : (b.refill cap rate now).Reaches rate 0 t := by
  rcases le_total cap (b.tokens + (now - b.last) * rate) with hle | hle
  · have hfull : b.refill cap rate now = full cap now := TokenBucket.ext (min_eq_left hle) rfl
    rw [hfull]
    exact reaches_full hcap hrate hnow
  · have htokens : (b.refill cap rate now).tokens = b.tokens + (now - b.last) * rate :=
      min_eq_right hle
    calc 0 ≤ b.tokens + (t - b.last) * rate := h
      _ = (b.refill cap rate now).tokens + (t - now) * rate := by
          rw [htokens]
          ring

theorem Reaches.request (h : b.Reaches rate 0 t) (hcap : 0 ≤ cap) (hrate : 0 ≤ rate)
    (hnow : now ≤ t) : (b.request cap rate now).Reaches rate 0 t := by
  by_cases ha : b.Allows cap rate now
  · rw [request_of_allows ha]
    exact add_nonneg (sub_nonneg.mpr ha) (mul_nonneg (sub_nonneg.mpr hnow) hrate)
  · rw [request_of_not_allows ha]
    exact h.refill hcap hrate hnow

end

end TokenBucket

end TradingBackend
