import Mathlib.Data.List.GetD
import Snuffleupagus.Config.Keyword
import Snuffleupagus.Match.Prefix
import Snuffleupagus.Php.Numeral

/-! # Networks in the configuration

`get_ip_str` prints a network for the dump of the configuration, `get_ip_and_cidr` parses one. `CidrText` is
the form both are about: an address, a slash, and a mask of one to three digits within the range of the family
of the address. What is printed has it (`getIpStr_eq`), and what has it is parsed to what it says
(`CidrText.parses`).

The parser keeps the length of the mask in an `int`, which loses its upper half. A mask of more than `2 ^ 32`
bytes is taken for one with one to three characters if the rest of its length is one to three, and then only
these are looked at (`LongMask`). This is the only exception (`parses_iff`). -/

namespace Snuffleupagus.Config.Cidr

open Snuffleupagus.Php.Bytes Snuffleupagus.Php.Numeral Snuffleupagus.Php.Engine
open Snuffleupagus.Config.Rule Snuffleupagus.Config.Keyword Snuffleupagus.Match.Network
open Snuffleupagus.Match.Prefix

/-! ### Printing -/

/-- `INET_ADDRSTRLEN` and `INET6_ADDRSTRLEN`. -/
def addrStrLen : SpIp → ℕ
  | .v4 _ => 16
  | .v6 _ => 46

section Print
variable (ntop : SpIp → ZendString)

/-- `inet_ntop`, by the texts of the addresses: one that does not fit with its NUL is not written. -/
def inetNtop (ip : SpIp) (size : ℕ) : Option ZendString :=
  if (ntop ip).length < size then some (ntop ip) else none

/-- `get_ip_str`, with what it leaves in `dst`; `snprintf` cuts what does not fit. -/
def getIpStr (dstLen : ℕ) (cidr : SpCidr) : Option ZendString :=
  let ipstrLen := addrStrLen cidr.ip
  if dstLen < ipstrLen + 1 + 3 + 1 then none
  else
    match inetNtop ntop cidr.ip ipstrLen with
    | none => none
    | some dst => some (dst ++ (zstr "/" ++ decimal cidr.mask).take (dstLen - dst.length - 1))

/-- The buffer of `add_df_to_arr`. -/
def cidrstrLen : ℕ := 46 + 5

/-- **What `inet_ntop` writes for an address**: a text without a slash that fits, and that `inet_pton` reads
back. -/
structure Printed (w : World) (ip : SpIp) : Prop where
  getIp : getIp w (ntop ip) = some ip
  slash : 47 ∉ ntop ip
  length : (ntop ip).length < addrStrLen ip

end Print

/-! ### The form of a network -/

/-- **An address, a slash, and a mask** of one to three digits in its range. -/
structure CidrText (w : World) (s : ZendString) (cidr : SpCidr) : Prop where
  text : ∃ ip mask, s = ip ++ 47 :: mask ∧ 47 ∉ ip ∧ getIp w ip = some cidr.ip ∧
    (1 ≤ mask.length ∧ mask.length ≤ 3) ∧ (∀ c ∈ mask, isDigit c = true) ∧ digits 0 mask = cidr.mask
  range : MaskInRange cidr

/-- What is tested of a mask of `n` characters. -/
def Tested (n : ℤ) (mask : ZendString) : Prop :=
  (1 ≤ n ∧ n ≤ 3) ∧ ∀ i : ℕ, (i : ℤ) < n → isDigit (mask.getD i 0) = true

/-- **A mask that is too long**, but whose length is cut to one to three, with digits in front and a number
`atoi` reads within the range. -/
def LongMask (w : World) (s : ZendString) : Prop :=
  ∃ ip mask a, s = ip ++ 47 :: mask ∧ 47 ∉ ip ∧ getIp w ip = some a ∧ 2 ^ 32 ≤ mask.length ∧
    Tested ((mask.length : ℤ).bmod (2 ^ 32)) mask ∧ 0 ≤ atoi mask ∧ atoi mask ≤ addressBits a

section Parse
variable {w : World} {s ip mask : ZendString} {cidr : SpCidr}

theorem takeWhile_slash (h : 47 ∉ ip) : (ip ++ 47 :: mask).takeWhile (· ≠ 47) = ip := by
  rw [List.takeWhile_append_of_pos fun c hc => decide_eq_true (ne_of_mem_of_not_mem hc h)]
  simp

theorem dropWhile_slash (h : 47 ∉ ip) : (ip ++ 47 :: mask).dropWhile (· ≠ 47) = 47 :: mask := by
  rw [List.dropWhile_append_of_pos fun c hc => decide_eq_true (ne_of_mem_of_not_mem hc h)]
  simp

/-- A text with a slash, at the first one. -/
theorem exists_slash (h : s.dropWhile (· ≠ 47) ≠ []) : ∃ ip mask, s = ip ++ 47 :: mask ∧ 47 ∉ ip := by
  obtain ⟨c, mask, hc⟩ := List.exists_cons_of_ne_nil h
  have hhead := List.head?_dropWhile_not (fun x : UInt8 => decide (x ≠ 47)) s
  rw [hc] at hhead
  have hc47 : c = 47 := by simpa using hhead
  refine ⟨s.takeWhile (· ≠ 47), mask, ?_, fun hm => ?_⟩
  · rw [hc47] at hc
    rw [← hc, List.takeWhile_append_dropWhile]
  · simpa using List.mem_takeWhile_imp hm

/-- The tests of the code, on the length and the number of a mask. -/
theorem tested_iff {n i : ℤ} : (n < 1 ∨ n > 3 ∨ (!isDigit (mask.getD 0 0)) = true ∨
      (n ≥ 2 ∧ (!isDigit (mask.getD 1 0)) = true) ∨ (n = 3 ∧ (!isDigit (mask.getD 2 0)) = true) ∨
      i < 0 ∨ i > 128) ↔ ¬(Tested n mask ∧ 0 ≤ i ∧ i ≤ 128) := by
  unfold Tested
  constructor
  · rintro h ⟨⟨⟨h₁, h₃⟩, hd⟩, hi⟩
    have h0 := hd 0 (by omega)
    have h1 : n ≥ 2 → isDigit (mask.getD 1 0) = true := fun hn => hd 1 (by omega)
    have h2 : n = 3 → isDigit (mask.getD 2 0) = true := fun hn => hd 2 (by omega)
    grind
  · intro h
    by_contra hn
    refine h ⟨⟨by omega, fun j hj => ?_⟩, by omega, by omega⟩
    have hj3 : j = 0 ∨ j = 1 ∨ j = 2 := by omega
    rcases hj3 with rfl | rfl | rfl <;> grind

/-- **What the parser accepts.** -/
theorem getIpAndCidr_eq_ok (hip : 47 ∉ ip) : getIpAndCidr w (ip ++ 47 :: mask) = .ok cidr ↔
    Tested ((mask.length : ℤ).bmod (2 ^ 32)) mask ∧ getIp w ip = some cidr.ip ∧
      0 ≤ atoi mask ∧ atoi mask ≤ addressBits cidr.ip ∧ cidr.mask = (atoi mask).toNat := by
  obtain ⟨net, m⟩ := cidr
  unfold getIpAndCidr
  rw [takeWhile_slash hip, dropWhile_slash hip]
  dsimp only
  by_cases ht : Tested ((mask.length : ℤ).bmod (2 ^ 32)) mask ∧ 0 ≤ atoi mask ∧ atoi mask ≤ 128
  · rw [if_neg (mt tested_iff.mp (not_not.mpr ht))]
    cases getIp w ip with
    | none => simp
    | some a =>
      cases a with
      | v4 a =>
        dsimp only
        split_ifs with h32
        · refine iff_of_false (by simp) ?_
          rintro ⟨-, hnet, -, hle, -⟩
          cases hnet
          simp only [addressBits] at hle
          omega
        · simp only [Except.ok.injEq, SpCidr.mk.injEq, Option.some_inj]
          constructor
          · rintro ⟨rfl, rfl⟩
            exact ⟨ht.1, rfl, ht.2.1, by simp only [addressBits]; omega, rfl⟩
          · rintro ⟨-, rfl, -, -, rfl⟩
            exact ⟨rfl, rfl⟩
      | v6 a =>
        simp only [Except.ok.injEq, SpCidr.mk.injEq, Option.some_inj]
        constructor
        · rintro ⟨rfl, rfl⟩
          exact ⟨ht.1, rfl, ht.2.1, by simp only [addressBits]; omega, rfl⟩
        · rintro ⟨-, rfl, -, -, rfl⟩
          exact ⟨rfl, rfl⟩
  · rw [if_pos (tested_iff.mpr ht)]
    refine iff_of_false (by simp) ?_
    rintro ⟨htest, -, h₀, hle, -⟩
    have h128 : addressBits net ≤ 128 := by cases net <;> simp [addressBits]
    exact ht ⟨htest, h₀, by omega⟩

/-- Without a slash nothing is accepted. -/
theorem exists_slash_of_ok (h : getIpAndCidr w s = .ok cidr) : ∃ ip mask, s = ip ++ 47 :: mask ∧ 47 ∉ ip := by
  refine exists_slash fun hnil => ?_
  unfold getIpAndCidr at h
  rw [hnil] at h
  cases h

/-- The number of a mask that is as short as it should be. -/
theorem atoi_short (h₁ : mask ≠ []) (h₃ : mask.length ≤ 3) (hd : ∀ c ∈ mask, isDigit c = true) :
    atoi mask = digits 0 mask := by
  have hlt : digits 0 mask < 1000 := by
    have h := digits_lt hd 0
    have hpow : 10 ^ mask.length ≤ 10 ^ 3 := Nat.pow_le_pow_right (by decide) h₃
    omega
  have hread : strtoNum mask = some (digits 0 mask : ℤ) := strtoNum_numeral .none h₁ hd
  unfold atoi
  rw [atol_of_strtoNum hread (by simp only [longMin]; omega) (by simp only [longMax]; omega)]
  exact Int.bmod_eq_of_le (by omega) (by omega)

/-- On short masks the tests are about every character. -/
theorem tested_short (h : mask.length < 2 ^ 32) : Tested ((mask.length : ℤ).bmod (2 ^ 32)) mask ↔
    (1 ≤ mask.length ∧ mask.length ≤ 3) ∧ ∀ c ∈ mask, isDigit c = true := by
  have hall : (∀ i : ℕ, (i : ℤ) < mask.length → isDigit (mask.getD i 0) = true) ↔
      ∀ c ∈ mask, isDigit c = true := by
    constructor
    · intro hi c hc
      obtain ⟨i, hlt, rfl⟩ := List.getElem_of_mem hc
      have := hi i (by omega)
      rwa [List.getD_eq_getElem _ _ hlt] at this
    · intro hc i hi
      rw [List.getD_eq_getElem _ _ (by omega)]
      exact hc _ (List.getElem_mem _)
  unfold Tested
  by_cases hlt : mask.length < 2 ^ 31
  · rw [Int.bmod_eq_of_le (by omega) (by omega), hall]
    exact and_congr_left' (by omega)
  · -- the length is taken for a negative one
    have hneg : (mask.length : ℤ).bmod (2 ^ 32) < 1 := by
      rw [Int.bmod_def]
      have := Int.emod_eq_of_lt (a := (mask.length : ℤ)) (b := ((2 ^ 32 : ℕ) : ℤ)) (by omega) (by omega)
      rw [this]
      split_ifs <;> omega
    exact iff_of_false (fun ht => by omega) (fun ht => by omega)

/-- The first slash is found. -/
theorem slash_inj {ip' mask' : ZendString} (hip : 47 ∉ ip) (hip' : 47 ∉ ip')
    (h : ip ++ 47 :: mask = ip' ++ 47 :: mask') : ip = ip' ∧ mask = mask' := by
  refine ⟨?_, ?_⟩
  · have ht := @takeWhile_slash ip' mask' hip'
    rw [← h, takeWhile_slash hip] at ht
    exact ht
  · have hd := @dropWhile_slash ip' mask' hip'
    rw [← h, dropWhile_slash hip] at hd
    exact (List.cons.inj hd).2

theorem cidrText_iff (hip : 47 ∉ ip) : CidrText w (ip ++ 47 :: mask) cidr ↔
    getIp w ip = some cidr.ip ∧ ((1 ≤ mask.length ∧ mask.length ≤ 3) ∧ ∀ c ∈ mask, isDigit c = true) ∧
      digits 0 mask = cidr.mask ∧ MaskInRange cidr := by
  constructor
  · rintro ⟨⟨ip', mask', heq, hip', hg, hl, hd, hm⟩, hr⟩
    obtain ⟨rfl, rfl⟩ := slash_inj hip hip' heq
    exact ⟨hg, ⟨hl, hd⟩, hm, hr⟩
  · rintro ⟨hg, ⟨hl, hd⟩, hm, hr⟩
    exact ⟨⟨ip, mask, rfl, hip, hg, hl, hd, hm⟩, hr⟩

/-- **A short mask is parsed to what it says.** -/
theorem parses_short (hip : 47 ∉ ip) (h : mask.length < 2 ^ 32) :
    getIpAndCidr w (ip ++ 47 :: mask) = .ok cidr ↔ CidrText w (ip ++ 47 :: mask) cidr := by
  rw [getIpAndCidr_eq_ok hip, cidrText_iff hip, tested_short h]
  unfold MaskInRange
  have hatoi : ((1 ≤ mask.length ∧ mask.length ≤ 3) ∧ ∀ c ∈ mask, isDigit c = true) →
      atoi mask = digits 0 mask := fun ⟨hl, hd⟩ =>
    atoi_short (List.ne_nil_of_length_pos hl.1) hl.2 hd
  constructor
  · rintro ⟨ht, hg, h₀, hle, hm⟩
    rw [hatoi ht] at hle hm
    exact ⟨hg, ht, by omega, by omega⟩
  · rintro ⟨hg, ht, hm, hr⟩
    rw [hatoi ht]
    exact ⟨ht, hg, by omega, by omega, by omega⟩

/-- **Which texts are parsed as they should be**: all but those with a mask that is too long. -/
theorem parses_iff : (∀ cidr, getIpAndCidr w s = .ok cidr ↔ CidrText w s cidr) ↔ ¬LongMask w s := by
  by_cases hs : ∃ ip mask, s = ip ++ 47 :: mask ∧ 47 ∉ ip
  · obtain ⟨ip, mask, rfl, hip⟩ := hs
    by_cases hlen : mask.length < 2 ^ 32
    · refine iff_of_true (fun cidr => parses_short hip hlen) ?_
      rintro ⟨ip', mask', a, heq, hip', -, hlong, -⟩
      obtain ⟨rfl, rfl⟩ := slash_inj hip hip' heq
      omega
    · -- a longer mask is never right
      have hno : ∀ cidr, ¬CidrText w (ip ++ 47 :: mask) cidr := by
        intro cidr h
        have := ((cidrText_iff hip).mp h).2.1.1.2
        omega
      constructor
      · rintro h ⟨ip', mask', a, heq, hip', hg, -, ht, h₀, hle⟩
        obtain ⟨rfl, rfl⟩ := slash_inj hip hip' heq
        exact hno ⟨a, (atoi mask).toNat⟩
          ((h _).mp ((getIpAndCidr_eq_ok hip).mpr ⟨ht, hg, h₀, hle, rfl⟩))
      · intro h cidr
        refine iff_of_false (fun hok => h ?_) (hno cidr)
        obtain ⟨ht, hg, h₀, hle, -⟩ := (getIpAndCidr_eq_ok hip).mp hok
        exact ⟨ip, mask, cidr.ip, rfl, hip, hg, by omega, ht, h₀, hle⟩
  · refine iff_of_true (fun cidr => iff_of_false (fun hok => hs (exists_slash_of_ok hok)) ?_) ?_
    · rintro ⟨⟨ip, mask, heq, hip, -⟩, -⟩
      exact hs ⟨ip, mask, heq, hip⟩
    · rintro ⟨ip, mask, a, heq, hip, -⟩
      exact hs ⟨ip, mask, heq, hip⟩

end Parse

/-! ### The round trip -/

section RoundTrip
variable {w : World} {ntop : SpIp → ZendString} {cidr : SpCidr}

/-- A mask in its range has one to three digits. -/
theorem length_decimal_mask (hm : MaskInRange cidr) :
    1 ≤ (decimal cidr.mask).length ∧ (decimal cidr.mask).length ≤ 3 := by
  have h128 : addressBits cidr.ip ≤ 128 := by cases cidr.ip <;> simp [addressBits]
  unfold MaskInRange at hm
  exact ⟨List.length_pos_of_ne_nil (decimal_ne_nil _), (length_decimal_le (by decide)).mpr (by omega)⟩

/-- **What is printed**, into the buffer of the caller: it fits. -/
theorem getIpStr_eq (hp : Printed ntop w cidr.ip) (hm : MaskInRange cidr) :
    getIpStr ntop cidrstrLen cidr = some (ntop cidr.ip ++ 47 :: decimal cidr.mask) ∧
      (ntop cidr.ip ++ 47 :: decimal cidr.mask).length < cidrstrLen := by
  have hl := length_decimal_mask hm
  have hlen := hp.length
  have h46 : addrStrLen cidr.ip ≤ 46 := by cases cidr.ip <;> simp [addrStrLen]
  unfold cidrstrLen
  refine ⟨?_, by simp only [List.length_append, List.length_cons]; omega⟩
  unfold getIpStr inetNtop
  dsimp only
  rw [if_neg (by omega), if_pos hlen]
  dsimp only
  have hslash : zstr "/" ++ decimal cidr.mask = 47 :: decimal cidr.mask := rfl
  rw [hslash, List.take_of_length_le (by rw [List.length_cons]; omega)]

theorem cidrText_printed (hp : Printed ntop w cidr.ip) (hm : MaskInRange cidr) :
    CidrText w (ntop cidr.ip ++ 47 :: decimal cidr.mask) cidr :=
  (cidrText_iff hp.slash).mpr
    ⟨hp.getIp, ⟨length_decimal_mask hm, isDigit_decimal _⟩, digits_decimal _, hm⟩

/-- **Printing and parsing.** What is printed fits, and is parsed to the network it was; a text is parsed if
it is a network, exactly when its mask is not one that is too long and taken for a short one. -/
theorem cidr_parse_print (w : World) :
    (∀ (ntop : SpIp → ZendString) (cidr : SpCidr), Printed ntop w cidr.ip → MaskInRange cidr →
      ∃ s, getIpStr ntop cidrstrLen cidr = some s ∧ s.length < cidrstrLen ∧ getIpAndCidr w s = .ok cidr) ∧
    ∀ s, (∀ cidr, getIpAndCidr w s = .ok cidr ↔ CidrText w s cidr) ↔ ¬LongMask w s := by
  refine ⟨fun ntop cidr hp hm => ⟨_, (getIpStr_eq hp hm).1, (getIpStr_eq hp hm).2, ?_⟩, fun s => parses_iff⟩
  have hl := length_decimal_mask hm
  exact (parses_short hp.slash (by omega)).mpr (cidrText_printed hp hm)

/-- A world with one IPv4 address. -/
def oneAddress4 : World :=
  { World.empty 80200 with inetPton4 := fun s => if s = zstr "192.0.2.1" then some 0xc0000201 else none }

theorem getIp_oneAddress4 : getIp oneAddress4 (zstr "192.0.2.1") = some (.v4 0xc0000201) := by
  simp [getIp, oneAddress4]

/-- A network of 24 bits is printed and parsed. -/
theorem cidr_parse_print_v4 :
    ∃ s, getIpStr (fun _ => zstr "192.0.2.1") cidrstrLen ⟨.v4 0xc0000201, 24⟩ = some s ∧
      s.length < cidrstrLen ∧ getIpAndCidr oneAddress4 s = .ok ⟨.v4 0xc0000201, 24⟩ :=
  (cidr_parse_print oneAddress4).1 (fun _ => zstr "192.0.2.1") ⟨.v4 0xc0000201, 24⟩
    ⟨getIp_oneAddress4, by decide, by decide⟩ (by decide)

/-- The digits 24, and `n` letters. -/
def mask24 (n : ℕ) : ZendString := [50, 52] ++ List.replicate n 120

theorem atoi_mask24 (n : ℕ) : atoi (mask24 n) = 24 := by
  have hstop : ∀ c ∈ (List.replicate n (120 : UInt8)).head?, isDigit c = false := by
    intro c hc
    rw [List.eq_of_mem_replicate (List.mem_of_mem_head? hc)]
    rfl
  have hread := (Parts.mk [] .none [50, 52] (List.replicate n 120) (List.forall_mem_nil _) (by simp)
    (List.forall_mem_cons.mpr ⟨rfl, List.forall_mem_singleton.mpr rfl⟩) hstop).strtoNum_text
  change strtoNum (mask24 n) = some 24 at hread
  unfold atoi
  rw [atol_of_strtoNum hread (by decide) (by decide)]
  rfl

theorem length_mask24 (n : ℕ) : (mask24 n).length = n + 2 := by
  unfold mask24
  rw [List.length_append, List.length_replicate]
  simp [add_comm]

/-- **A mask of `2 ^ 32 + 2` characters is taken for one of two.** -/
theorem long_mask_accepted :
    getIpAndCidr oneAddress4 (zstr "192.0.2.1" ++ 47 :: mask24 (2 ^ 32)) = .ok ⟨.v4 0xc0000201, 24⟩ ∧
      ¬CidrText oneAddress4 (zstr "192.0.2.1" ++ 47 :: mask24 (2 ^ 32)) ⟨.v4 0xc0000201, 24⟩ := by
  have hip : 47 ∉ zstr "192.0.2.1" := by decide
  have hlen := length_mask24 (2 ^ 32)
  constructor
  · refine (getIpAndCidr_eq_ok hip).mpr ⟨?_, getIp_oneAddress4, ?_, ?_, ?_⟩
    · rw [hlen]
      have hcut : (((2 ^ 32 + 2 : ℕ) : ℕ) : ℤ).bmod (2 ^ 32) = 2 := by decide
      rw [hcut]
      refine ⟨by decide, fun i hi => ?_⟩
      have hi2 : i = 0 ∨ i = 1 := by omega
      rcases hi2 with rfl | rfl <;> rfl
    · rw [atoi_mask24]
      decide
    · rw [atoi_mask24]
      decide
    · rw [atoi_mask24]
      rfl
  · intro h
    have hl := ((cidrText_iff hip).mp h).2.1.1.2
    omega

end RoundTrip

end Snuffleupagus.Config.Cidr
