import Snuffleupagus.Lib.LeadingBits
import Snuffleupagus.Match.Network

/-! # Networks on machines of either byte order

`cidr_match` reads the words of an address as the machine does and brings its masks into network order. Here
it is written with the byte order as a parameter. What C leaves undefined is `none`: a shift by 32 bits, a
word behind the address.

An address is in a network if it is of the same family and has the same leading bits (`InNetwork`). For every
mask that is accepted this is what `cidr_match` answers (`cidrMatchOn_yields`), and nothing undefined is done. -/

namespace Snuffleupagus.Match.Prefix

open Snuffleupagus.Lib.Effect Snuffleupagus.Lib.LeadingBits Snuffleupagus.Php.Bytes
open Snuffleupagus.Php.Engine Snuffleupagus.Config.Rule Snuffleupagus.Log Snuffleupagus.Match.Network

section Code
variable (o : ByteOrder)

/-- `0xFFFFFFFFu << n`. -/
def shiftMask (n : ℤ) : Option (BitVec 32) :=
  if 0 ≤ n ∧ n < 32 then some ((0xFFFFFFFF : BitVec 32) <<< n.toNat) else none

/-- `s_addr`. -/
def sAddr (a : BitVec 32) : BitVec 32 := o.word (byte a 0) (byte a 1) (byte a 2) (byte a 3)

/-- `s6_addr32[i]`. -/
def s6Addr32 (a : BitVec 128) (i : ℕ) : Option (BitVec 32) :=
  if i < 4 then
    some (o.word (byte a (4 * i)) (byte a (4 * i + 1)) (byte a (4 * i + 2)) (byte a (4 * i + 3)))
  else none

/-- `memcmp` tells two addresses apart by their first `n` bytes. -/
def memcmp (a b : BitVec 128) (n : ℕ) : Bool := (List.range n).any fun i => byte a i != byte b i

/-- `cidr4_match`. -/
def cidr4MatchOn (addr net : BitVec 32) (bits : ℕ) : Option Bool :=
  if bits = 0 then some true
  else do
    let mask ← shiftMask (32 - bits)
    some ((sAddr o addr ^^^ sAddr o net) &&& o.hton mask == 0)

/-- `cidr6_match`. -/
def cidr6MatchOn (address network : BitVec 128) (bits : ℕ) : Option Bool :=
  let bitsWhole := bits >>> 5
  let bitsIncomplete := bits &&& 0x1F
  if bitsWhole ≠ 0 ∧ memcmp address network (bitsWhole <<< 2) = true then some false
  else if bitsIncomplete ≠ 0 then do
    let mask ← shiftMask (32 - bitsIncomplete)
    let a ← s6Addr32 o address bitsWhole
    let n ← s6Addr32 o network bitsWhole
    some ((a ^^^ n) &&& o.hton mask == 0)
  else some true

/-- `cidr_match`. -/
def cidrMatchOn (w : World) (g : SpGlobals) (ip : ZendString) (cidr : SpCidr) : Sp (Option Bool) :=
  match getIp w ip, cidr.ip with
  | some (.v4 a), .v4 net => pure (cidr4MatchOn o a net cidr.mask)
  | some (.v6 a), .v6 net => pure (cidr6MatchOn o a net cidr.mask)
  | some _, _ => pure (some false)
  | none, _ => do
    spLogErr w g "cidr_match" "Weird ip (%s) family" [ip]
    pure (some false)

end Code

/-! ### What is meant -/

/-- The number of bits of an address. -/
def addressBits : SpIp → ℕ
  | .v4 _ => 32
  | .v6 _ => 128

/-- A mask `get_ip_and_cidr` accepts. -/
def MaskInRange (cidr : SpCidr) : Prop := cidr.mask ≤ addressBits cidr.ip

instance (cidr : SpCidr) : Decidable (MaskInRange cidr) := by
  unfold MaskInRange; infer_instance

/-- **An address in a network**: of the same family, with the same leading bits. -/
def InNetwork (cidr : SpCidr) : SpIp → Prop
  | .v4 a => ∃ net, cidr.ip = .v4 net ∧ Agree cidr.mask a net
  | .v6 a => ∃ net, cidr.ip = .v6 net ∧ Agree cidr.mask a net

/-- The client is in the network. -/
def ClientIn (w : World) (ip : ZendString) (cidr : SpCidr) : Prop := ∃ a, getIp w ip = some a ∧ InNetwork cidr a

section Words
variable {o : ByteOrder}

theorem sAddr_eq (a : BitVec 32) : sAddr o a = o.hton a := rfl

theorem s6Addr32_eq {a : BitVec 128} {i : ℕ} (hi : i < 4) :
    s6Addr32 o a i = some (o.hton (window a (32 * i) 32)) := by
  unfold s6Addr32
  rw [if_pos hi, word_bytes (by omega)]

/-- The mask of the first `k` bits of a word. -/
theorem shiftMask_eq {k : ℕ} (h₀ : k ≠ 0) (h : k ≤ 32) :
    shiftMask (32 - k) = some (BitVec.allOnes 32 <<< (32 - k)) := by
  unfold shiftMask
  rw [if_pos (by omega), show ((32 : ℤ) - k).toNat = 32 - k by omega]
  rfl

theorem memcmp_eq_false {a b : BitVec 128} {n : ℕ} (h : 8 * n ≤ 128) :
    memcmp a b n = false ↔ Agree (8 * n) a b := by
  rw [agree_mul h]
  unfold memcmp byte
  rw [List.any_eq_false]
  simp only [List.mem_range, bne_iff_ne, ne_eq, Decidable.not_not]

/-- **An IPv4 address.** -/
theorem cidr4MatchOn_eq (addr net : BitVec 32) {bits : ℕ} (h : bits ≤ 32) :
    cidr4MatchOn o addr net bits = some (decide (Agree bits addr net)) := by
  unfold cidr4MatchOn
  by_cases h₀ : bits = 0
  · subst h₀
    rw [if_pos rfl, decide_eq_true (agree_zero addr net)]
  · rw [if_neg h₀, shiftMask_eq h₀ h, Option.bind_eq_bind, Option.bind_some, sAddr_eq, sAddr_eq,
      beq_eq_decide]
    exact congrArg some (decide_eq_decide.mpr ((hton_mask ..).trans (agree_iff_mask h).symm))

/-- The leading bits of an IPv6 address: whole words, and a part of the next one. -/
theorem agree_words {a n : BitVec 128} {bits : ℕ} (h : bits ≤ 128) :
    Agree bits a n ↔ Agree (32 * (bits / 32)) a n ∧ (bits % 32 = 0 ∨
      (window a (32 * (bits / 32)) 32 ^^^ window n (32 * (bits / 32)) 32) &&&
        (BitVec.allOnes 32 <<< (32 - bits % 32)) = 0) := by
  have hbits : 32 * (bits / 32) + bits % 32 = bits := Nat.div_add_mod bits 32
  by_cases h₀ : bits % 32 = 0
  · rw [show 32 * (bits / 32) = bits by omega]
    simp [h₀]
  · rw [← agree_iff_mask (by omega)]
    have hsplit : Agree (32 * (bits / 32) + bits % 32) a n ↔ Agree (32 * (bits / 32)) a n ∧
        Agree (bits % 32) (window a (32 * (bits / 32)) 32) (window n (32 * (bits / 32)) 32) :=
      agree_add (by omega) (by omega)
    rw [hbits] at hsplit
    rw [hsplit]
    simp [h₀]

/-- **An IPv6 address.** -/
theorem cidr6MatchOn_eq (address network : BitVec 128) {bits : ℕ} (h : bits ≤ 128) :
    cidr6MatchOn o address network bits = some (decide (Agree bits address network)) := by
  have hwhole : bits >>> 5 = bits / 32 := Nat.shiftRight_eq_div_pow bits 5
  have hincomplete : bits &&& 0x1F = bits % 32 := Nat.and_two_pow_sub_one_eq_mod bits 5
  have hbytes : (bits / 32) <<< 2 = bits / 32 * 4 := Nat.shiftLeft_eq _ 2
  have hcmp : memcmp address network (bits / 32 * 4) = false ↔ Agree (32 * (bits / 32)) address network := by
    rw [memcmp_eq_false (by omega), show 8 * (bits / 32 * 4) = 32 * (bits / 32) by omega]
  have hwords := agree_words (a := address) (n := network) h
  unfold cidr6MatchOn
  dsimp only
  rw [hwhole, hincomplete, hbytes]
  by_cases hd : bits / 32 ≠ 0 ∧ memcmp address network (bits / 32 * 4) = true
  · -- the whole words differ
    rw [if_pos hd]
    refine congrArg some (decide_eq_false fun ha => ?_).symm
    rw [hcmp.mpr (hwords.mp ha).1] at hd
    exact absurd hd.2 Bool.false_ne_true
  · have hw : Agree (32 * (bits / 32)) address network := by
      by_cases h₀ : bits / 32 = 0
      · rw [h₀]
        exact agree_zero _ _
      · exact hcmp.mp (Bool.eq_false_iff.mpr fun ht => hd ⟨h₀, ht⟩)
    rw [if_neg hd]
    by_cases hi : bits % 32 = 0
    · rw [if_neg (not_not.mpr hi), decide_eq_true (hwords.mpr ⟨hw, Or.inl hi⟩)]
    · -- an incomplete word
      rw [if_pos hi, shiftMask_eq hi (by omega), s6Addr32_eq (by omega), s6Addr32_eq (by omega)]
      simp only [Option.bind_eq_bind, Option.bind_some]
      rw [beq_eq_decide]
      refine congrArg some (decide_eq_decide.mpr ?_)
      rw [hton_mask, hwords]
      simp [hw, hi]

end Words

section Client
variable {o : ByteOrder} {w : World} {g : SpGlobals} {ip : ZendString} {cidr : SpCidr}

/-- An address is compared with the network, and nothing undefined is done. -/
theorem cidrMatchOn_of_getIp (hm : MaskInRange cidr) {a : SpIp} (hip : getIp w ip = some a) :
    ∃ b, cidrMatchOn o w g ip cidr = pure (some b) ∧ (b = true ↔ InNetwork cidr a) := by
  obtain ⟨net, mask⟩ := cidr
  unfold MaskInRange at hm
  unfold cidrMatchOn
  rw [hip]
  cases a with
  | v4 a =>
    cases net with
    | v4 net =>
      refine ⟨decide (Agree mask a net), ?_, by simp [InNetwork]⟩
      dsimp only
      rw [cidr4MatchOn_eq a net hm]
    | v6 net => exact ⟨false, rfl, by simp [InNetwork]⟩
  | v6 a =>
    cases net with
    | v4 net => exact ⟨false, rfl, by simp [InNetwork]⟩
    | v6 net =>
      refine ⟨decide (Agree mask a net), ?_, by simp [InNetwork]⟩
      dsimp only
      rw [cidr6MatchOn_eq a net hm]

/-- **`cidr_match` tells whether the client is in the network**, on machines of either byte order. -/
theorem cidrMatchOn_iff (o : ByteOrder) (w : World) (g : SpGlobals) (ip : ZendString) {cidr : SpCidr}
    (hm : MaskInRange cidr) :
    (Yields (cidrMatchOn o w g ip cidr) (some true) ↔ ClientIn w ip cidr) ∧
      ∀ a, getIp w ip = some a → ∃ b, cidrMatchOn o w g ip cidr = pure (some b) := by
  unfold ClientIn
  refine ⟨?_, fun a hip => (cidrMatchOn_of_getIp hm hip).imp fun b hb => hb.1⟩
  cases hip : getIp w ip with
  | none =>
    refine iff_of_false (fun hy => ?_) (by simp)
    unfold cidrMatchOn at hy
    rw [hip] at hy
    obtain ⟨u, -, hy⟩ := yields_bind.mp hy
    exact absurd (yields_pure.mp hy) (by simp)
  | some a =>
    obtain ⟨b, heq, hb⟩ := cidrMatchOn_of_getIp (o := o) (g := g) hm hip
    rw [heq, yields_pure, Option.some_inj, hb]
    simp

/-- A world with one IPv6 address. -/
def oneAddress : World :=
  { World.empty 80200 with
    inetPton6 := fun s => if s = zstr "2001:db8::1" then some 0x20010db8000000000000000000000001 else none }

/-- 33 bits: a whole word, and one bit of the next. -/
theorem cidrMatchOn_little :
    (Yields (cidrMatchOn .little oneAddress {} (zstr "2001:db8::1")
        ⟨.v6 0x20010db87fff00000000000000000000, 33⟩) (some true) ↔
      ClientIn oneAddress (zstr "2001:db8::1") ⟨.v6 0x20010db87fff00000000000000000000, 33⟩) ∧
    ∀ a, getIp oneAddress (zstr "2001:db8::1") = some a → ∃ b, cidrMatchOn .little oneAddress {}
      (zstr "2001:db8::1") ⟨.v6 0x20010db87fff00000000000000000000, 33⟩ = pure (some b) :=
  cidrMatchOn_iff .little oneAddress {} _ (by decide)

/-! ### The words in network order -/

theorem cidr4Match_eq (addr net : BitVec 32) {bits : ℕ} (h : bits ≤ 32) :
    cidr4Match addr net bits = decide (Agree bits addr net) := by
  unfold cidr4Match
  by_cases h₀ : bits = 0
  · subst h₀
    rw [if_pos rfl, decide_eq_true (agree_zero addr net)]
  · rw [if_neg h₀, beq_eq_decide]
    exact decide_eq_decide.mpr (agree_iff_mask h).symm

theorem cidr6Match_eq (address network : BitVec 128) {bits : ℕ} (h : bits ≤ 128) :
    cidr6Match address network bits = decide (Agree bits address network) := by
  have hword : ∀ (a : BitVec 128) (i : ℕ), ip6Word a i = window a (32 * i) 32 := by
    intro a i
    unfold ip6Word window
    rw [show 128 - 32 * i - 32 = 96 - 32 * i by omega]
  have hwhole : ((List.range (bits / 32)).any fun i => ip6Word address i != ip6Word network i) = false ↔
      Agree (32 * (bits / 32)) address network := by
    rw [agree_mul (by omega), List.any_eq_false]
    simp only [List.mem_range, bne_iff_ne, ne_eq, Decidable.not_not, hword]
  have hwords := agree_words (a := address) (n := network) h
  unfold cidr6Match
  dsimp only
  split_ifs with hd hi
  · refine (decide_eq_false fun ha => ?_).symm
    exact absurd ((hwhole.mpr (hwords.mp ha).1).symm.trans hd) Bool.false_ne_true
  · have hw := hwhole.mp (Bool.eq_false_iff.mpr hd)
    exact (decide_eq_true (hwords.mpr ⟨hw, Or.inl hi⟩)).symm
  · have hw := hwhole.mp (Bool.eq_false_iff.mpr hd)
    rw [beq_eq_decide, hword, hword]
    refine decide_eq_decide.mpr ?_
    rw [hwords]
    simp only [hw, hi, false_or, true_and]
    exact Iff.rfl

/-- **The model in network order answers the same.** -/
theorem cidrMatchOn_eq (hm : MaskInRange cidr) :
    cidrMatchOn o w g ip cidr = some <$> cidrMatch w g ip cidr := by
  obtain ⟨net, mask⟩ := cidr
  unfold MaskInRange at hm
  unfold cidrMatchOn cidrMatch
  cases hip : getIp w ip with
  | none =>
    dsimp only
    rw [map_bind]
    rfl
  | some a =>
    cases a with
    | v4 a =>
      cases net with
      | v4 net =>
        dsimp only
        rw [cidr4MatchOn_eq a net hm, cidr4Match_eq a net hm, map_pure]
      | v6 net => rfl
    | v6 a =>
      cases net with
      | v4 net => rfl
      | v6 net =>
        dsimp only
        rw [cidr6MatchOn_eq a net hm, cidr6Match_eq a net hm, map_pure]

end Client

end Snuffleupagus.Match.Prefix
