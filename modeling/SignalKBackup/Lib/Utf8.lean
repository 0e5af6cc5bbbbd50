import SignalKBackup.Lib.Transducer

/-!
# Utf8 — texts and the bytes they are written in

A text is written as the bytes of its characters.  Bytes are read back character by character, and
what is not well formed is read as U+FFFD: every text is read back as it was, but not all bytes are
those of a text.

* `decode_encode`: a text survives writing and reading;
* `decode_append_cons`: an ASCII byte is read on its own, whatever comes before it;
* `mem_decode` and `eq_of_decode_ascii`: ASCII characters come from their own bytes only.
-/

namespace SignalKBackup
namespace Lib
namespace Utf8

open Utf8State (replacement)

def encode (s : List Char) : List UInt8 :=
  s.flatMap String.utf8EncodeChar

/-- What is left over at the end of the bytes is one character that is broken off. -/
def flush (s : Utf8State) : List Char :=
  if s.needed = 0 then [] else [replacement]

def decodeFrom : Utf8State → List UInt8 → List Char
  | s, [] => flush s
  | s, b :: bs => (s.step b).2 ++ decodeFrom (s.step b).1 bs

/-- Between two characters; a byte order mark is read like any other character. -/
def fresh : Utf8State :=
  { bomSeen := true }

def decode (bs : List UInt8) : List Char :=
  decodeFrom fresh bs

/-- The bytes are those of a text. -/
def Text (bs : List UInt8) : Prop :=
  encode (decode bs) = bs

instance (bs : List UInt8) : Decidable (Text bs) :=
  inferInstanceAs (Decidable (_ = _))

example : decode [0x61, 0xFF, 0xC3, 0xA9, 0xE2, 0x82, 0x2E] =
    ['a', replacement, 'é', replacement, '.'] := by
  decide

/-! ## Writing -/

@[simp] theorem encode_nil : encode [] = [] := rfl

@[simp] theorem encode_cons (c : Char) (s : List Char) :
    encode (c :: s) = String.utf8EncodeChar c ++ encode s := rfl

theorem encode_append (s t : List Char) : encode (s ++ t) = encode s ++ encode t :=
  List.flatMap_append

/-- An ASCII character is one byte. -/
theorem encodeChar_ascii {c : Char} (h : c.toNat < 128) :
    String.utf8EncodeChar c = [UInt8.ofNat c.toNat] := by
  have hle : c.val.toNat ≤ 0x7f := Nat.le_of_lt_succ h
  simp only [String.utf8EncodeChar, if_pos hle]
  rfl

/-- The bytes of the other characters are beyond ASCII. -/
theorem encodeChar_beyond {c : Char} (h : ¬c.toNat < 128) :
    ∀ b ∈ String.utf8EncodeChar c, 128 ≤ b.toNat := by
  have hgt : ¬c.val.toNat ≤ 0x7f := fun hle => h (Nat.lt_succ_of_le hle)
  intro b hb
  simp only [String.utf8EncodeChar, if_neg hgt] at hb
  split at hb
  · simp only [List.mem_cons, List.not_mem_nil, or_false] at hb
    rcases hb with rfl | rfl
    all_goals
      simp only [UInt8.toNat_ofNat']
      omega
  · split at hb
    · simp only [List.mem_cons, List.not_mem_nil, or_false] at hb
      rcases hb with rfl | rfl | rfl
      all_goals
        simp only [UInt8.toNat_ofNat']
        omega
    · simp only [List.mem_cons, List.not_mem_nil, or_false] at hb
      rcases hb with rfl | rfl | rfl | rfl
      all_goals
        simp only [UInt8.toNat_ofNat']
        omega

theorem mem_encode {c : Char} (hc : c.toNat < 128) {s : List Char} :
    UInt8.ofNat c.toNat ∈ encode s ↔ c ∈ s := by
  induction s with
  | nil =>
      simp
  | cons d s ih =>
      rw [encode_cons, List.mem_append, ih, List.mem_cons]
      refine or_congr_left ?_
      by_cases hd : d.toNat < 128
      · rw [encodeChar_ascii hd, List.mem_singleton]
        constructor
        · intro heq
          have hbytes := congrArg UInt8.toNat heq
          simp only [UInt8.toNat_ofNat'] at hbytes
          exact Char.toNat_inj.1 (by omega)
        · rintro rfl
          rfl
      · refine iff_of_false (fun hmem => ?_) ?_
        · have hbeyond := encodeChar_beyond hd _ hmem
          simp only [UInt8.toNat_ofNat'] at hbeyond
          omega
        · rintro rfl
          exact hd hc

/-! ## Reading -/

/-- However a character that is begun goes on, it is one beyond ASCII. -/
def Completes : ℕ → ℕ → ℕ → ℕ → Prop
  | 0, _, _, _ => True
  | 1, codePoint, lower, upper => ∀ b, lower ≤ b → b ≤ upper →
      (codePoint * 0x40 + b % 0x40).isValidChar ∧ 128 ≤ codePoint * 0x40 + b % 0x40
  | n + 2, codePoint, lower, upper => ∀ b, lower ≤ b → b ≤ upper →
      Completes (n + 1) (codePoint * 0x40 + b % 0x40) 0x80 0xBF

/-- The states between two bytes. -/
structure Sane (s : Utf8State) : Prop where
  bom : s.bomSeen = true
  lower : 128 ≤ s.lower
  idle : s.needed = 0 → s = fresh
  completes : Completes s.needed s.codePoint s.lower s.upper

theorem sane_fresh : Sane fresh :=
  ⟨rfl, Nat.le_refl _, fun _ => rfl, trivial⟩

/-- What a byte puts out: itself, if it is an ASCII byte, and characters beyond ASCII. -/
structure Puts (b : UInt8) (r : Utf8State × List Char) : Prop where
  sane : Sane r.1
  out : ∀ c ∈ r.2, c = Char.ofNat b.toNat ∧ b.toNat < 128 ∨ 128 ≤ c.toNat

theorem emit_sane {s : Utf8State} (h : Sane s) (c : Char) : s.emit c = (fresh, [c]) := by
  simp [Utf8State.emit, h.bom, fresh]

theorem completes_two {b : ℕ} (h : 0xC2 ≤ b ∧ b ≤ 0xDF) : Completes 1 (b % 0x20) 0x80 0xBF := by
  intro c hlow hup
  constructor
  · exact Or.inl (by omega)
  · omega

/-- The bounds of the second byte leave out the surrogates. -/
theorem completes_three {b : ℕ} (h : 0xE0 ≤ b ∧ b ≤ 0xEF) :
    Completes 2 (b % 0x10) (if b = 0xE0 then 0xA0 else 0x80) (if b = 0xED then 0x9F else 0xBF) := by
  intro c hlow hup d hlow' hup'
  constructor
  · unfold Nat.isValidChar
    split at hlow <;> split at hup <;> omega
  · split at hlow <;> split at hup <;> omega

/-- They leave out what is beyond the last character as well. -/
theorem completes_four {b : ℕ} (h : 0xF0 ≤ b ∧ b ≤ 0xF4) :
    Completes 3 (b % 0x08) (if b = 0xF0 then 0x90 else 0x80) (if b = 0xF4 then 0x8F else 0xBF) := by
  intro c hlow hup d hlow' hup' e hlow'' hup''
  constructor
  · unfold Nat.isValidChar
    split at hlow <;> split at hup <;> omega
  · split at hlow <;> split at hup <;> omega

theorem lead_puts (b : UInt8) : Puts b (fresh.lead b.toNat) := by
  have hreplacement : 128 ≤ replacement.toNat := by decide
  unfold Utf8State.lead
  split
  case isTrue hascii =>
      rw [emit_sane sane_fresh]
      refine ⟨sane_fresh, fun c hc => ?_⟩
      rw [List.mem_singleton.1 hc]
      exact Or.inl ⟨rfl, by omega⟩
  case isFalse =>
      split
      case isTrue htwo =>
          exact ⟨⟨rfl, Nat.le_refl _, by simp, completes_two htwo⟩, by simp⟩
      case isFalse =>
          split
          case isTrue hthree =>
              have hlower : 128 ≤ if b.toNat = 0xE0 then 0xA0 else 0x80 := by split <;> omega
              exact ⟨⟨rfl, hlower, by simp, completes_three hthree⟩, by simp⟩
          case isFalse =>
              split
              case isTrue hfour =>
                  have hlower : 128 ≤ if b.toNat = 0xF0 then 0x90 else 0x80 := by split <;> omega
                  exact ⟨⟨rfl, hlower, by simp, completes_four hfour⟩, by simp⟩
              case isFalse =>
                  rw [emit_sane sane_fresh]
                  refine ⟨sane_fresh, fun c hc => ?_⟩
                  rw [List.mem_singleton.1 hc]
                  exact Or.inr hreplacement

theorem ofNat_toNat {n : ℕ} (h : n.isValidChar) : (Char.ofNat n).toNat = n := by
  rw [Char.ofNat, dif_pos h]
  rfl

theorem step_puts {s : Utf8State} (h : Sane s) (b : UInt8) : Puts b (s.step b) := by
  have hreplacement : 128 ≤ replacement.toNat := by decide
  unfold Utf8State.step
  dsimp only
  split
  case isTrue hidle =>
      rw [h.idle hidle]
      exact lead_puts b
  case isFalse hneeded =>
      split
      case isTrue hbounds =>
          have hcompletes := h.completes
          split
          case isTrue hone =>
              rw [hone] at hcompletes
              rcases hcompletes b.toNat hbounds.1 hbounds.2 with ⟨hvalid, hbeyond⟩
              rw [emit_sane h]
              refine ⟨sane_fresh, fun c hc => Or.inr ?_⟩
              rw [List.mem_singleton.1 hc, ofNat_toNat hvalid]
              exact hbeyond
          case isFalse hone =>
              obtain ⟨n, hn⟩ : ∃ n, s.needed = n + 2 := ⟨s.needed - 2, by omega⟩
              rw [hn] at hcompletes
              have hmore := hcompletes b.toNat hbounds.1 hbounds.2
              refine ⟨⟨h.bom, Nat.le_refl _, ?_, ?_⟩, by simp⟩
              · intro hzero
                simp only [hn] at hzero
                omega
              · simpa [hn] using hmore
      case isFalse =>
          rw [emit_sane h]
          have hlead := lead_puts b
          refine ⟨hlead.sane, fun c hc => ?_⟩
          rcases List.mem_append.1 hc with hbroken | hnext
          · rw [List.mem_singleton.1 hbroken]
            exact Or.inr hreplacement
          · exact hlead.out c hnext

theorem flush_beyond (s : Utf8State) : ∀ c ∈ flush s, 128 ≤ c.toNat := by
  intro c hc
  unfold flush at hc
  split at hc
  · cases hc
  · rw [List.mem_singleton.1 hc]
    decide

/-- ASCII characters come from their own bytes. -/
theorem mem_decodeFrom {c : Char} (hc : c.toNat < 128) {bs : List UInt8} {s : Utf8State}
    (hs : Sane s) (h : c ∈ decodeFrom s bs) : UInt8.ofNat c.toNat ∈ bs := by
  induction bs generalizing s with
  | nil =>
      have hbeyond := flush_beyond s c h
      omega
  | cons b bs ih =>
      have hputs := step_puts hs b
      rcases List.mem_append.1 h with hnow | hlater
      · rcases hputs.out c hnow with ⟨rfl, hascii⟩ | hbeyond
        · have hvalid : b.toNat.isValidChar := Or.inl (by omega)
          rw [ofNat_toNat hvalid]
          simp
        · omega
      · exact List.mem_cons_of_mem b (ih hputs.sane hlater)

/-- An ASCII byte ends what is broken off before it, and is read on its own. -/
theorem step_ascii {s : Utf8State} (hs : Sane s) {b : UInt8} (hb : b.toNat < 128) :
    s.step b = (fresh, flush s ++ [Char.ofNat b.toNat]) := by
  have hlead : fresh.lead b.toNat = (fresh, [Char.ofNat b.toNat]) := by
    have hle : b.toNat ≤ 0x7F := by omega
    simp only [Utf8State.lead, if_pos hle, emit_sane sane_fresh]
  unfold Utf8State.step flush
  dsimp only
  split
  case isTrue hidle =>
      rw [hs.idle hidle, hlead]
      rfl
  case isFalse =>
      have hlower := hs.lower
      have hout : ¬(s.lower ≤ b.toNat ∧ b.toNat ≤ s.upper) := by omega
      rw [if_neg hout, emit_sane hs, hlead]

theorem decodeFrom_append_cons {s : Utf8State} (hs : Sane s) (as : List UInt8) {b : UInt8}
    (hb : b.toNat < 128) (bs : List UInt8) :
    decodeFrom s (as ++ b :: bs) = decodeFrom s as ++ Char.ofNat b.toNat :: decode bs := by
  induction as generalizing s with
  | nil =>
      show (s.step b).2 ++ decodeFrom (s.step b).1 bs = _
      rw [step_ascii hs hb]
      simp [decodeFrom, decode]
  | cons a as ih =>
      rw [List.cons_append, decodeFrom, decodeFrom, ih (step_puts hs a).sane, List.append_assoc]

theorem decode_append_cons (as : List UInt8) {b : UInt8} (hb : b.toNat < 128) (bs : List UInt8) :
    decode (as ++ b :: bs) = decode as ++ Char.ofNat b.toNat :: decode bs :=
  decodeFrom_append_cons sane_fresh as hb bs

theorem mem_decode {c : Char} (hc : c.toNat < 128) {bs : List UInt8} :
    c ∈ decode bs ↔ UInt8.ofNat c.toNat ∈ bs := by
  constructor
  · exact mem_decodeFrom hc sane_fresh
  · intro hmem
    rcases List.append_of_mem hmem with ⟨as, rest, rfl⟩
    have hb : (UInt8.ofNat c.toNat).toNat = c.toNat := by
      simp only [UInt8.toNat_ofNat']
      omega
    rw [decode_append_cons as (by omega) rest, hb, Char.ofNat_toNat]
    simp

/-- What is begun is read as something beyond ASCII. -/
theorem decodeFrom_begun {s : Utf8State} (hs : Sane s) (hneeded : s.needed ≠ 0) (bs : List UInt8) :
    ∃ c ∈ decodeFrom s bs, 128 ≤ c.toNat := by
  have hreplacement : 128 ≤ replacement.toNat := by decide
  induction bs generalizing s with
  | nil =>
      exact ⟨replacement, by simp [decodeFrom, flush, hneeded], hreplacement⟩
  | cons b bs ih =>
      have hputs := step_puts hs b
      rw [decodeFrom]
      by_cases hbounds : s.lower ≤ b.toNat ∧ b.toNat ≤ s.upper
      · by_cases hone : s.needed = 1
        · have hcompletes := hs.completes
          rw [hone] at hcompletes
          rcases hcompletes b.toNat hbounds.1 hbounds.2 with ⟨hvalid, hbeyond⟩
          refine ⟨Char.ofNat (s.codePoint * 0x40 + b.toNat % 0x40), ?_, ?_⟩
          · simp [Utf8State.step, hbounds, hone, emit_sane hs]
          · rw [ofNat_toNat hvalid]
            exact hbeyond
        · have hmore : (s.step b).1.needed ≠ 0 := by
            simp only [Utf8State.step, hneeded, if_false, hbounds, and_self, if_true, hone]
            omega
          rcases ih hputs.sane hmore with ⟨c, hc, hbeyond⟩
          exact ⟨c, List.mem_append_right _ hc, hbeyond⟩
      · refine ⟨replacement, ?_, hreplacement⟩
        simp [Utf8State.step, hneeded, hbounds, emit_sane hs]

/-- Bytes that read as ASCII are just that. -/
theorem eq_of_decode_ascii {bs : List UInt8} (h : ∀ c ∈ decode bs, c.toNat < 128) :
    encode (decode bs) = bs := by
  induction bs with
  | nil =>
      rfl
  | cons b bs ih =>
      by_cases hb : b.toNat < 128
      · have hcons : decode (b :: bs) = Char.ofNat b.toNat :: decode bs :=
          decode_append_cons [] hb bs
        rw [hcons] at h ⊢
        have hvalid : b.toNat.isValidChar := Or.inl (by omega)
        have hbyte : (Char.ofNat b.toNat).toNat = b.toNat := ofNat_toNat hvalid
        rw [encode_cons, encodeChar_ascii (h _ (by simp)), hbyte,
          ih fun c hc => h c (List.mem_cons_of_mem _ hc)]
        simp
      · -- the first byte begins a character, or is no such byte
        have hputs := lead_puts b
        have hstep : fresh.step b = fresh.lead b.toNat := by
          simp [Utf8State.step, fresh]
        have hsome : ∃ c ∈ decode (b :: bs), 128 ≤ c.toNat := by
          by_cases hneeded : (fresh.step b).1.needed = 0
          · refine ⟨replacement, ?_, by decide⟩
            rw [decode, decodeFrom]
            refine List.mem_append_left _ ?_
            rw [hstep] at hneeded ⊢
            unfold Utf8State.lead at hneeded ⊢
            have hle : ¬b.toNat ≤ 0x7F := by omega
            rw [if_neg hle] at hneeded ⊢
            split at hneeded
            · cases hneeded
            · split at hneeded
              · cases hneeded
              · split at hneeded
                · cases hneeded
                · simp [*, emit_sane sane_fresh]
          · rcases decodeFrom_begun (step_puts sane_fresh b).sane hneeded bs with ⟨c, hc, hbeyond⟩
            exact ⟨c, List.mem_append_right _ hc, hbeyond⟩
        rcases hsome with ⟨c, hc, hbeyond⟩
        have hascii := h c hc
        omega

theorem decode_ne_nil {bs : List UInt8} (h : bs ≠ []) : decode bs ≠ [] := by
  intro hnil
  have heq : encode (decode bs) = bs := eq_of_decode_ascii (by simp [hnil])
  rw [hnil] at heq
  exact h heq.symm

/-! ## A text survives -/

/-- A byte that begins a character. -/
theorem decode_lead {b : UInt8} {s : Utf8State} (hlead : fresh.lead b.toNat = (s, []))
    (bs : List UInt8) : decode (b :: bs) = decodeFrom s bs := by
  have hstep : fresh.step b = fresh.lead b.toNat := by
    simp [Utf8State.step, fresh]
  rw [decode, decodeFrom, hstep, hlead]
  rfl

/-- A byte behind the first carries six bits. -/
theorem toNat_tail (v : ℕ) : (UInt8.ofNat (v % 0x40 + 0x80)).toNat = v % 0x40 + 0x80 := by
  rw [UInt8.toNat_ofNat']
  omega

theorem tail_bits (v : ℕ) : (v % 0x40 + 0x80) % 0x40 = v % 0x40 := by
  omega

/-- A byte in the middle of a character. -/
theorem decodeFrom_more {s : Utf8State} {n v : ℕ} (hneeded : s.needed = n + 2)
    (hlow : s.lower ≤ v % 0x40 + 0x80) (hup : v % 0x40 + 0x80 ≤ s.upper) (bs : List UInt8) :
    decodeFrom s (UInt8.ofNat (v % 0x40 + 0x80) :: bs) = decodeFrom
      { needed := n + 1, codePoint := s.codePoint * 0x40 + v % 0x40, bomSeen := s.bomSeen } bs := by
  have hb := toNat_tail v
  generalize UInt8.ofNat (v % 0x40 + 0x80) = b at hb ⊢
  rw [decodeFrom]
  simp [Utf8State.step, hneeded, hb, tail_bits, hlow, hup]

/-- The last byte of a character. -/
theorem decodeFrom_last {s : Utf8State} {v : ℕ} (hneeded : s.needed = 1) (hbom : s.bomSeen = true)
    (hlow : s.lower ≤ v % 0x40 + 0x80) (hup : v % 0x40 + 0x80 ≤ s.upper) (bs : List UInt8) :
    decodeFrom s (UInt8.ofNat (v % 0x40 + 0x80) :: bs) =
      Char.ofNat (s.codePoint * 0x40 + v % 0x40) :: decode bs := by
  have hb := toNat_tail v
  generalize UInt8.ofNat (v % 0x40 + 0x80) = b at hb ⊢
  rw [decodeFrom]
  simp [Utf8State.step, hneeded, hb, tail_bits, hlow, hup, Utf8State.emit, hbom, decode, fresh]

/-- Where nothing more is said, a byte behind the first lies in these bounds. -/
theorem tail_bounds (v : ℕ) : 0x80 ≤ v % 0x40 + 0x80 ∧ v % 0x40 + 0x80 ≤ 0xBF := by
  omega

/-! ### One character, by the number of its bytes -/

theorem decode_one {v : ℕ} (hup : v ≤ 0x7F) (bs : List UInt8) :
    decode (UInt8.ofNat v :: bs) = Char.ofNat v :: decode bs := by
  have hb : (UInt8.ofNat v).toNat = v := by
    rw [UInt8.toNat_ofNat']
    omega
  show (fresh.step _).2 ++ decodeFrom (fresh.step _).1 bs = _
  rw [step_ascii sane_fresh (by omega), hb]
  rfl

theorem decode_two {v : ℕ} (hlow : ¬v ≤ 0x7F) (hup : v ≤ 0x7FF) (bs : List UInt8) :
    decode (UInt8.ofNat (v / 64 % 0x20 + 0xc0) :: UInt8.ofNat (v % 0x40 + 0x80) :: bs) =
      Char.ofNat v :: decode bs := by
  have hb : (UInt8.ofNat (v / 64 % 0x20 + 0xc0)).toNat = v / 64 + 0xc0 := by
    rw [UInt8.toNat_ofNat']
    omega
  have hlead : fresh.lead (v / 64 + 0xc0) =
      ({ fresh with needed := 1, codePoint := v / 64 }, []) := by
    unfold Utf8State.lead
    rw [if_neg (by omega), if_pos (by omega)]
    have hbits : (v / 64 + 0xc0) % 0x20 = v / 64 := by omega
    rw [hbits]
  rw [decode_lead ((congrArg fresh.lead hb).trans hlead),
    decodeFrom_last rfl rfl (tail_bounds v).1 (tail_bounds v).2]
  have hcode : v / 64 * 0x40 + v % 0x40 = v := by omega
  simp only [hcode]

theorem decode_three {v : ℕ} (hlow : ¬v ≤ 0x7FF) (hup : v ≤ 0xFFFF)
    (hvalid : v < 0xD800 ∨ 0xDFFF < v) (bs : List UInt8) :
    decode (UInt8.ofNat (v / 4096 % 0x10 + 0xe0) :: UInt8.ofNat (v / 64 % 0x40 + 0x80) ::
      UInt8.ofNat (v % 0x40 + 0x80) :: bs) = Char.ofNat v :: decode bs := by
  have hb : (UInt8.ofNat (v / 4096 % 0x10 + 0xe0)).toNat = v / 4096 + 0xe0 := by
    rw [UInt8.toNat_ofNat']
    omega
  have hlead : fresh.lead (v / 4096 + 0xe0) =
      ({ fresh with
          needed := 2
          codePoint := v / 4096
          lower := if v / 4096 + 0xe0 = 0xE0 then 0xA0 else 0x80
          upper := if v / 4096 + 0xe0 = 0xED then 0x9F else 0xBF }, []) := by
    unfold Utf8State.lead
    rw [if_neg (by omega), if_neg (by omega), if_pos (by omega)]
    have hbits : (v / 4096 + 0xe0) % 0x10 = v / 4096 := by omega
    rw [hbits]
  -- the bounds of the second byte keep shorter characters and surrogates out
  have hsecond : (if v / 4096 + 0xe0 = 0xE0 then 0xA0 else 0x80) ≤ v / 64 % 0x40 + 0x80 := by
    split <;> omega
  have hsecond' : v / 64 % 0x40 + 0x80 ≤ if v / 4096 + 0xe0 = 0xED then 0x9F else 0xBF := by
    split <;> omega
  rw [decode_lead ((congrArg fresh.lead hb).trans hlead), decodeFrom_more rfl hsecond hsecond',
    decodeFrom_last rfl rfl (tail_bounds v).1 (tail_bounds v).2]
  have hcode : (v / 4096 * 0x40 + v / 64 % 0x40) * 0x40 + v % 0x40 = v := by omega
  simp only [hcode]

theorem decode_four {v : ℕ} (hlow : ¬v ≤ 0xFFFF) (hup : v < 0x110000) (bs : List UInt8) :
    decode (UInt8.ofNat (v / 262144 % 0x08 + 0xf0) :: UInt8.ofNat (v / 4096 % 0x40 + 0x80) ::
      UInt8.ofNat (v / 64 % 0x40 + 0x80) :: UInt8.ofNat (v % 0x40 + 0x80) :: bs) =
        Char.ofNat v :: decode bs := by
  have hb : (UInt8.ofNat (v / 262144 % 0x08 + 0xf0)).toNat = v / 262144 + 0xf0 := by
    rw [UInt8.toNat_ofNat']
    omega
  have hlead : fresh.lead (v / 262144 + 0xf0) =
      ({ fresh with
          needed := 3
          codePoint := v / 262144
          lower := if v / 262144 + 0xf0 = 0xF0 then 0x90 else 0x80
          upper := if v / 262144 + 0xf0 = 0xF4 then 0x8F else 0xBF }, []) := by
    unfold Utf8State.lead
    rw [if_neg (by omega), if_neg (by omega), if_neg (by omega), if_pos (by omega)]
    have hbits : (v / 262144 + 0xf0) % 0x08 = v / 262144 := by omega
    rw [hbits]
  have hsecond : (if v / 262144 + 0xf0 = 0xF0 then 0x90 else 0x80) ≤ v / 4096 % 0x40 + 0x80 := by
    split <;> omega
  have hsecond' : v / 4096 % 0x40 + 0x80 ≤ if v / 262144 + 0xf0 = 0xF4 then 0x8F else 0xBF := by
    split <;> omega
  rw [decode_lead ((congrArg fresh.lead hb).trans hlead), decodeFrom_more rfl hsecond hsecond',
    decodeFrom_more rfl (tail_bounds _).1 (tail_bounds _).2,
    decodeFrom_last rfl rfl (tail_bounds v).1 (tail_bounds v).2]
  have hcode : ((v / 262144 * 0x40 + v / 4096 % 0x40) * 0x40 + v / 64 % 0x40) * 0x40 +
      v % 0x40 = v := by omega
  simp only [hcode]

theorem decode_cons_char (c : Char) (bs : List UInt8) :
    decode (String.utf8EncodeChar c ++ bs) = c :: decode bs := by
  have hvalid : c.val.toNat.isValidChar := c.valid
  have hback : Char.ofNat c.val.toNat = c := Char.ofNat_toNat c
  rw [String.utf8EncodeChar]
  split
  case isTrue hone =>
      exact (decode_one hone bs).trans (by rw [hback])
  case isFalse hone =>
      split
      case isTrue htwo =>
          exact (decode_two hone htwo bs).trans (by rw [hback])
      case isFalse htwo =>
          split
          case isTrue hthree =>
              have hnoSurrogate : c.val.toNat < 0xD800 ∨ 0xDFFF < c.val.toNat :=
                hvalid.imp id And.left
              exact (decode_three htwo hthree hnoSurrogate bs).trans (by rw [hback])
          case isFalse hthree =>
              have hbound : c.val.toNat < 0x110000 := by
                unfold Nat.isValidChar at hvalid
                omega
              exact (decode_four hthree hbound bs).trans (by rw [hback])

theorem decode_encode (s : List Char) : decode (encode s) = s := by
  induction s with
  | nil =>
      rfl
  | cons c s ih =>
      rw [encode_cons, decode_cons_char, ih]

theorem text_encode (s : List Char) : Text (encode s) := by
  unfold Text
  rw [decode_encode]

end Utf8
end Lib
end SignalKBackup
