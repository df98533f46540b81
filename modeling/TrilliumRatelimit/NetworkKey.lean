import TrilliumRatelimit.BitWords
import TrilliumRatelimit.RateLimiter

/-!
# Peers grouped by network

`network_key` keys an IPv4 peer on its address, also when it arrives mapped
into IPv6, and a native IPv6 peer on its `/64`.  Said without masks, a peer
belongs to a network, every network has one address that stands for it, and
`network_key` goes from the peer to that address.
-/

namespace TrilliumRatelimit

open BitWords

structure Ipv4Addr where
  bits : BitVec 32
  deriving DecidableEq

structure Ipv6Addr where
  bits : BitVec 128
  deriving DecidableEq

inductive IpAddr where
  | v4 (addr : Ipv4Addr)
  | v6 (addr : Ipv6Addr)
  deriving DecidableEq

def Ipv4Addr.new (a b c d : UInt8) : Ipv4Addr :=
  ⟨a.toBitVec ++ b.toBitVec ++ c.toBitVec ++ d.toBitVec⟩

def Ipv6Addr.new (a b c d e f g h : UInt16) : Ipv6Addr :=
  ⟨a.toBitVec ++ b.toBitVec ++ c.toBitVec ++ d.toBitVec ++ e.toBitVec ++
    f.toBitVec ++ g.toBitVec ++ h.toBitVec⟩

/-- Octets and segments are counted from the front. -/
def Ipv6Addr.octet (addr : Ipv6Addr) (i : ℕ) : UInt8 :=
  ⟨word 8 addr.bits (15 - i)⟩

def Ipv6Addr.segment (addr : Ipv6Addr) (i : ℕ) : UInt16 :=
  ⟨word 16 addr.bits (7 - i)⟩

def Ipv6Addr.octets (addr : Ipv6Addr) : List UInt8 :=
  (List.range 16).map addr.octet

def Ipv6Addr.toIpv4Mapped (addr : Ipv6Addr) : Option Ipv4Addr :=
  match addr.octets with
  | [0, 0, 0, 0, 0, 0, 0, 0, 0, 0, 0xff, 0xff, a, b, c, d] =>
      some (Ipv4Addr.new a b c d)
  | _ => none

def networkKey : IpAddr → IpAddr
  | .v4 addr => .v4 addr
  | .v6 addr =>
      match addr.toIpv4Mapped with
      | some v4 => .v4 v4
      | none => .v6 (Ipv6Addr.new (addr.segment 0) (addr.segment 1)
          (addr.segment 2) (addr.segment 3) 0 0 0 0)

def RateLimiter.byNetwork {Request : Type*} (quota : Quota)
    (peerIp : Conn Request → Option IpAddr) : RateLimiter Request IpAddr :=
  RateLimiter.new quota fun conn => (peerIp conn).map networkKey

/-! ## Networks -/

/-- The address is of `::ffff:0:0/96`. -/
def Ipv6Addr.IsMapped (addr : Ipv6Addr) : Prop :=
  addr.bits.extractLsb' 32 96 = 0xffff#96

instance (addr : Ipv6Addr) : Decidable addr.IsMapped :=
  inferInstanceAs (Decidable (_ = _))

inductive Network where
  | ipv4 (address : BitVec 32)
  | ipv6 (leading : BitVec 64)
  deriving DecidableEq

def IpAddr.network : IpAddr → Network
  | .v4 addr => .ipv4 addr.bits
  | .v6 addr =>
      if addr.IsMapped then .ipv4 (addr.bits.extractLsb' 0 32)
      else .ipv6 (addr.bits.extractLsb' 64 64)

/-- The address that stands for a network. -/
def Network.key : Network → IpAddr
  | .ipv4 address => .v4 ⟨address⟩
  | .ipv6 leading => .v6 ⟨leading ++ 0#64⟩

/-! ## What the octets say -/

theorem Ipv6Addr.octet_eq (addr : Ipv6Addr) {i : ℕ} (hi : i < 12) :
    (addr.octet i).toBitVec =
      word 8 (addr.bits.extractLsb' 32 96 : BitVec (8 * 12)) (11 - i) := by
  have hword : word 8 (addr.bits.extractLsb' (8 * 4) (8 * 12)) (11 - i) =
      word 8 addr.bits (4 + (11 - i)) := word_extract addr.bits (by omega)
  exact (hword.trans (congrArg _ (by omega))).symm

theorem Ipv6Addr.isMapped_iff (addr : Ipv6Addr) :
    addr.IsMapped ↔ (List.range 12).map addr.octet =
      [0, 0, 0, 0, 0, 0, 0, 0, 0, 0, 0xff, 0xff] := by
  have hoctets : [0, 0, 0, 0, 0, 0, 0, 0, 0, 0, 0xff, 0xff] =
      (List.range 12).map fun i =>
        (⟨word 8 (0xffff#96 : BitVec (8 * 12)) (11 - i)⟩ : UInt8) := by
    decide
  rw [hoctets, List.map_inj_left]
  constructor
  · intro hmapped i hi
    rw [← UInt8.toBitVec_inj, addr.octet_eq (List.mem_range.mp hi), hmapped]
  · intro hall
    apply eq_of_words (w := 8) (n := 12) (by decide)
    intro i hi
    have hlt : 11 - i < 12 := by omega
    have hword := UInt8.toBitVec_inj.mpr (hall _ (List.mem_range.mpr hlt))
    rwa [addr.octet_eq hlt, Nat.sub_sub_self (by omega)] at hword

/-- The last four octets are the low half of the IPv4-mapped form. -/
theorem Ipv6Addr.new_octets (addr : Ipv6Addr) :
    Ipv4Addr.new (addr.octet 12) (addr.octet 13) (addr.octet 14)
      (addr.octet 15) = ⟨addr.bits.extractLsb' 0 32⟩ := by
  have hfirst := extract_append addr.bits 16 8 8
  have hsecond := extract_append addr.bits 8 8 16
  have hthird := extract_append addr.bits 0 8 24
  simp only [Nat.reduceAdd] at hfirst hsecond hthird
  simp only [Ipv4Addr.new, Ipv6Addr.octet, word, Nat.reduceSub,
    Nat.reduceMul]
  rw [hfirst, hsecond, hthird]

theorem Ipv6Addr.toIpv4Mapped_eq (addr : Ipv6Addr) :
    addr.toIpv4Mapped =
      if addr.IsMapped then some ⟨addr.bits.extractLsb' 0 32⟩ else none := by
  have hoctets : addr.octets = (List.range 12).map addr.octet ++
      [addr.octet 12, addr.octet 13, addr.octet 14, addr.octet 15] := rfl
  by_cases hmapped : addr.IsMapped
  · rw [if_pos hmapped, ← addr.new_octets, toIpv4Mapped, hoctets,
      addr.isMapped_iff.mp hmapped]
    rfl
  · rw [if_neg hmapped, toIpv4Mapped]
    split
    next a b c d hmatch =>
      exact absurd (addr.isMapped_iff.mpr (congrArg (List.take 12) hmatch))
        hmapped
    next => rfl

/-- A word of zeros behind another is one longer word of zeros. -/
theorem append_zero_segments (leading : BitVec 64) :
    (leading ++ 0#16 ++ 0#16 ++ 0#16 ++ 0#16 : BitVec 128) =
      leading ++ 0#64 := by
  apply BitVec.eq_of_toNat_eq
  calc (leading ++ 0#16 ++ 0#16 ++ 0#16 ++ 0#16 : BitVec 128).toNat
      = (leading ++ 0#16 ++ 0#16 ++ 0#32).toNat :=
        toNat_append_zeros (leading ++ 0#16 ++ 0#16) 16 16
    _ = (leading ++ 0#16 ++ 0#48).toNat :=
        toNat_append_zeros (leading ++ 0#16) 16 32
    _ = (leading ++ 0#64).toNat := toNat_append_zeros leading 16 48

theorem Ipv6Addr.new_segments (addr : Ipv6Addr) :
    Ipv6Addr.new (addr.segment 0) (addr.segment 1) (addr.segment 2)
      (addr.segment 3) 0 0 0 0 =
        ⟨addr.bits.extractLsb' 64 64 ++ 0#64⟩ := by
  have hfirst := extract_append addr.bits 96 16 16
  have hsecond := extract_append addr.bits 80 16 32
  have hthird := extract_append addr.bits 64 16 48
  simp only [Nat.reduceAdd] at hfirst hsecond hthird
  simp only [Ipv6Addr.new, Ipv6Addr.segment, word, Nat.reduceSub,
    Nat.reduceMul]
  rw [hfirst, hsecond, hthird]
  exact congrArg _ (append_zero_segments _)

/-! ## Peers of one network -/

/-- Masked to its `/64`, an address is not IPv4-mapped. -/
theorem Ipv6Addr.not_isMapped_masked (leading : BitVec 64) :
    ¬ (⟨leading ++ 0#64⟩ : Ipv6Addr).IsMapped := by
  intro hmapped
  have hlow := congrArg (BitVec.extractLsb' 0 32) hmapped
  rw [extract_extract _ (by decide),
    BitVec.extractLsb'_append_eq_of_add_le (by decide)] at hlow
  exact absurd hlow (by decide)

theorem Network.network_key (network : Network) :
    network.key.network = network := by
  cases network with
  | ipv4 address => rfl
  | ipv6 leading =>
      rw [Network.key, IpAddr.network,
        if_neg (Ipv6Addr.not_isMapped_masked leading)]
      exact congrArg _ BitVec.extractLsb'_append_eq_left

theorem networkKey_eq (ip : IpAddr) : networkKey ip = ip.network.key := by
  cases ip with
  | v4 addr => rfl
  | v6 addr =>
      rw [networkKey, addr.toIpv4Mapped_eq, IpAddr.network]
      by_cases hmapped : addr.IsMapped
      · rw [if_pos hmapped, if_pos hmapped]
        rfl
      · rw [if_neg hmapped, if_neg hmapped]
        exact congrArg _ addr.new_segments

theorem networkKey_eq_iff (a b : IpAddr) :
    networkKey a = networkKey b ↔ a.network = b.network := by
  rw [networkKey_eq, networkKey_eq]
  have hinverse : Function.LeftInverse IpAddr.network Network.key :=
    Network.network_key
  exact hinverse.injective.eq_iff

/-- Requests are metered in one partition if their peers are of one
network. -/
theorem RateLimiter.byNetwork_metering_eq_iff {Request : Type*}
    (quota : Quota) {peerIp : Conn Request → Option IpAddr}
    {conn other : Conn Request} {a b : IpAddr} (ha : peerIp conn = some a)
    (hb : peerIp other = some b) :
    (RateLimiter.byNetwork quota peerIp).metering conn =
        (RateLimiter.byNetwork quota peerIp).metering other ↔
      a.network = b.network := by
  simp only [RateLimiter.metering, RateLimiter.byNetwork, RateLimiter.new,
    ha, hb, Option.map_some, Metering.metered.injEq, Option.some.injEq,
    networkKey_eq_iff]

/-- An IPv4 peer of this address, plain or mapped into IPv6. -/
inductive IpAddr.IsIpv4 (address : BitVec 32) : IpAddr → Prop
  | plain : IpAddr.IsIpv4 address (.v4 ⟨address⟩)
  | mapped : IpAddr.IsIpv4 address (.v6 ⟨0xffff#96 ++ address⟩)

/-- An IPv6 peer that is not IPv4-mapped, by its first 64 bits. -/
inductive IpAddr.IsNative (leading : BitVec 64) : IpAddr → Prop
  | intro {addr : Ipv6Addr} :
      ¬ addr.IsMapped → addr.bits.extractLsb' 64 64 = leading →
        IpAddr.IsNative leading (.v6 addr)

theorem IpAddr.isIpv4_iff {ip : IpAddr} {address : BitVec 32} :
    ip.IsIpv4 address ↔ ip.network = .ipv4 address := by
  constructor
  · intro h
    cases h with
    | plain => rfl
    | mapped =>
        have hmapped : (⟨0xffff#96 ++ address⟩ : Ipv6Addr).IsMapped :=
          BitVec.extractLsb'_append_eq_left
        rw [IpAddr.network, if_pos hmapped]
        exact congrArg _ BitVec.extractLsb'_append_eq_right
  · intro h
    cases ip with
    | v4 addr =>
        obtain rfl := Network.ipv4.inj h
        exact .plain
    | v6 addr =>
        by_cases hmapped : addr.IsMapped
        · rw [IpAddr.network, if_pos hmapped] at h
          obtain rfl := Network.ipv4.inj h
          have hbits := extract_append addr.bits 0 32 96
          rw [Nat.zero_add, hmapped, BitVec.extractLsb'_eq_self] at hbits
          have haddr : addr = ⟨0xffff#96 ++ addr.bits.extractLsb' 0 32⟩ :=
            congrArg Ipv6Addr.mk hbits.symm
          generalize addr.bits.extractLsb' 0 32 = address at haddr ⊢
          exact haddr ▸ .mapped
        · rw [IpAddr.network, if_neg hmapped] at h
          cases h

theorem IpAddr.isNative_iff {ip : IpAddr} {leading : BitVec 64} :
    ip.IsNative leading ↔ ip.network = .ipv6 leading := by
  constructor
  · rintro ⟨hnative, rfl⟩
    exact if_neg hnative
  · intro h
    cases ip with
    | v4 addr => cases h
    | v6 addr =>
        by_cases hmapped : addr.IsMapped
        · rw [IpAddr.network, if_pos hmapped] at h
          cases h
        · rw [IpAddr.network, if_neg hmapped] at h
          exact .intro hmapped (Network.ipv6.inj h)

/-- Keys are equal for peers of one network only, and a key is its own. -/
theorem networkKey_groups_by_network :
    (∀ a b, networkKey a = networkKey b ↔
      (∃ address, a.IsIpv4 address ∧ b.IsIpv4 address) ∨
        ∃ leading, a.IsNative leading ∧ b.IsNative leading) ∧
    (∀ ip, networkKey (networkKey ip) = networkKey ip) ∧
    ∀ ip, ¬ ∃ addr : Ipv6Addr, networkKey ip = .v6 addr ∧ addr.IsMapped := by
  refine ⟨?_, ?_, ?_⟩
  · intro a b
    simp only [networkKey_eq_iff, IpAddr.isIpv4_iff, IpAddr.isNative_iff]
    cases a.network <;> cases b.network <;> simp [eq_comm]
  · intro ip
    rw [networkKey_eq, networkKey_eq, Network.network_key]
  · rintro ip ⟨addr, hkey, hmapped⟩
    rw [networkKey_eq] at hkey
    have hnetwork := congrArg IpAddr.network hkey
    rw [Network.network_key, IpAddr.network, if_pos hmapped] at hnetwork
    rw [hnetwork] at hkey
    cases hkey

example : networkKey (.v6 (.new 0 0 0 0 0 0xffff 0xc633 0x6401)) =
    .v4 (.new 198 51 100 1) := by decide

end TrilliumRatelimit
