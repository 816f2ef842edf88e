import Mathlib.Tactic.NormNum
import BlackMonolith.Library.PrefixBlocks
import BlackMonolith.SecretBoundary.Destination

/-!
# The address space behind the checks

Addresses are numbers of 32 or 128 bits, and the special-purpose spaces are sets
of blocks of them. The octet and segment tests of the adapter come to membership
in these blocks, except for two blocks of IPv6 that no test looks for.
-/
namespace BlackMonolith.SecretBoundary
open Library Library.PrefixBlock

/-- The special-purpose spaces an address can be in. -/
inductive Space
  | loopback
  | unspecified
  | linkLocal
  | multicast
  | reserved
  | documentation
  | benchmarking
  | privateUse
  | shared
deriving Repr, DecidableEq

def dotted (a b c d : ℕ) : ℕ := ((a * 256 + b) * 256 + c) * 256 + d

def Space.blocks4 : Space → List PrefixBlock
  | .loopback => [⟨dotted 127 0 0 0, 8⟩]
  | .unspecified => [⟨dotted 0 0 0 0, 8⟩]
  | .linkLocal => [⟨dotted 169 254 0 0, 16⟩]
  | .multicast => [⟨dotted 224 0 0 0, 4⟩]
  | .reserved => [⟨dotted 240 0 0 0, 4⟩]
  | .documentation =>
      [⟨dotted 192 0 2 0, 24⟩, ⟨dotted 198 51 100 0, 24⟩, ⟨dotted 203 0 113 0, 24⟩]
  | .benchmarking => [⟨dotted 198 18 0 0, 15⟩]
  | .privateUse => [⟨dotted 10 0 0 0, 8⟩, ⟨dotted 172 16 0 0, 12⟩, ⟨dotted 192 168 0 0, 16⟩]
  | .shared => [⟨dotted 100 64 0 0, 10⟩]

/-- IPv6 names no reserved and no shared space. -/
def Space.blocks6 : Space → List PrefixBlock
  | .loopback => [⟨1, 128⟩]
  | .unspecified => [⟨0, 128⟩]
  | .linkLocal => [⟨0xFE80 * 2 ^ 112, 10⟩]
  | .multicast => [⟨0xFF00 * 2 ^ 112, 8⟩]
  | .reserved => []
  | .documentation => [⟨0x20010DB8 * 2 ^ 96, 32⟩, ⟨0x3FFF * 2 ^ 112, 20⟩]
  | .benchmarking => [⟨0x200100020000 * 2 ^ 80, 48⟩]
  | .privateUse => [⟨0xFC00 * 2 ^ 112, 7⟩]
  | .shared => []

/-- Private and shared space can be opened by configuration. -/
def Space.permitted (allowPrivateIps : Bool) : Space → Bool
  | .privateUse | .shared => allowPrivateIps
  | _ => false

def Forbidden4 (allowPrivateIps : Bool) (n : ℕ) : Prop :=
  ∃ space : Space, space.permitted allowPrivateIps = false ∧ InBlocks 32 space.blocks4 n

/-- The IPv4-mapped and IPv4-compatible addresses. -/
def Embeds4 (n : ℕ) : Prop := n / 2 ^ 32 = 0xFFFF ∨ n / 2 ^ 32 = 0

def Forbidden6 (allowPrivateIps : Bool) (n : ℕ) : Prop :=
  (∃ space : Space, space.permitted allowPrivateIps = false ∧ InBlocks 128 space.blocks6 n) ∨
    Embeds4 n ∧ Forbidden4 allowPrivateIps (n % 2 ^ 32)

def grouped (s0 s1 s2 s3 s4 s5 s6 s7 : ℕ) : ℕ :=
  ((((((s0 * 65536 + s1) * 65536 + s2) * 65536 + s3) * 65536 + s4) * 65536 + s5) * 65536 + s6) *
    65536 + s7

def IpAddr.number : IpAddr → ℕ
  | .v4 a b c d => dotted a.toNat b.toNat c.toNat d.toNat
  | .v6 s0 s1 s2 s3 s4 s5 s6 s7 =>
      grouped s0.toNat s1.toNat s2.toNat s3.toNat s4.toNat s5.toNat s6.toNat s7.toNat

/-- The addresses a request must never reach. -/
def Forbidden (allowPrivateIps : Bool) (ip : IpAddr) : Prop :=
  match ip with
  | .v4 .. => Forbidden4 allowPrivateIps ip.number
  | .v6 .. => Forbidden6 allowPrivateIps ip.number

/-- The benchmarking block of IPv6 and the younger of its documentation blocks. -/
def overlookedBlocks : List PrefixBlock := [⟨0x200100020000 * 2 ^ 80, 48⟩, ⟨0x3FFF * 2 ^ 112, 20⟩]

def Overlooked : IpAddr → Prop
  | .v4 .. => False
  | ip@(.v6 ..) => InBlocks 128 overlookedBlocks ip.number

/-! ## The octet tests -/

theorem byte_mask (b : UInt8) (m k p : ℕ) (hwidth : m + k = 8) (mask value : UInt8)
    (hmask : mask.toNat = (2 ^ m - 1) * 2 ^ k) (hvalue : value.toNat = p * 2 ^ k) :
    (b &&& mask == value) = decide (b.toNat / 2 ^ k = p) := by
  have hb : b.toNat < 2 ^ (m + k) := by
    rw [hwidth]
    exact b.toNat_lt
  rw [Bool.eq_iff_iff, beq_iff_eq, decide_eq_true_iff, ← land_mask_eq_iff hb, ← hmask, ← hvalue,
    ← UInt8.toNat_and]
  exact UInt8.toNat_inj.symm

theorem segment_mask (s : UInt16) (m k p : ℕ) (hwidth : m + k = 16) (mask value : UInt16)
    (hmask : mask.toNat = (2 ^ m - 1) * 2 ^ k) (hvalue : value.toNat = p * 2 ^ k) :
    (s &&& mask == value) = decide (s.toNat / 2 ^ k = p) := by
  have hs : s.toNat < 2 ^ (m + k) := by
    rw [hwidth]
    exact s.toNat_lt
  rw [Bool.eq_iff_iff, beq_iff_eq, decide_eq_true_iff, ← land_mask_eq_iff hs, ← hmask, ← hvalue,
    ← UInt16.toNat_and]
  exact UInt16.toNat_inj.symm

/-- What the blocks say of the octets. -/
def OctetsOf (a b c : ℕ) : Space → Prop
  | .loopback => a = 127
  | .unspecified => a = 0
  | .linkLocal => a = 169 ∧ b = 254
  | .multicast => 224 ≤ a ∧ a ≤ 239
  | .reserved => 240 ≤ a
  | .documentation =>
      (a = 192 ∧ b = 0 ∧ c = 2) ∨ (a = 198 ∧ b = 51 ∧ c = 100) ∨ (a = 203 ∧ b = 0 ∧ c = 113)
  | .benchmarking => a = 198 ∧ b / 2 = 9
  | .privateUse => a = 10 ∨ (a = 172 ∧ 16 ≤ b ∧ b ≤ 31) ∨ (a = 192 ∧ b = 168)
  | .shared => a = 100 ∧ b / 64 = 1

theorem octetsOf_inBlocks {a b c d : ℕ} (hb : b < 256) (hc : c < 256) (hd : d < 256)
    {space : Space} (h : InBlocks 32 space.blocks4 (dotted a b c d)) : OctetsOf a b c space := by
  obtain ⟨block, hmem, hcontains⟩ := h
  unfold Contains at hcontains
  cases space <;> simp only [Space.blocks4, List.mem_cons, List.not_mem_nil, or_false] at hmem
  case privateUse | documentation =>
    rcases hmem with rfl | rfl | rfl <;> norm_num [dotted, OctetsOf] at hcontains ⊢ <;> omega
  all_goals
    subst hmem
    norm_num [dotted, OctetsOf] at hcontains ⊢
    omega

/-- Every forbidden IPv4 address fails an octet test. -/
theorem forbidden4_dotted {allowPrivateIps : Bool} {a b c d : UInt8}
    (h : Forbidden4 allowPrivateIps (dotted a.toNat b.toNat c.toNat d.toNat)) :
    isDangerousIpv4 allowPrivateIps a b c d = true := by
  obtain ⟨space, hpermitted, hblocks⟩ := h
  have hoctets := octetsOf_inBlocks b.toNat_lt c.toNat_lt d.toNat_lt hblocks
  unfold isDangerousIpv4
  rw [byte_mask b 7 1 9 rfl 0xFE 18 rfl rfl, byte_mask b 2 6 1 rfl 0xC0 64 rfl rfl]
  simp only [Bool.or_eq_true, Bool.and_eq_true, decide_eq_true_iff, beq_iff_eq, ← UInt8.toNat_inj,
    UInt8.le_iff_toNat_le, UInt8.reduceToNat, Bool.not_eq_eq_eq_not, Bool.not_true]
  cases space <;> simp only [OctetsOf, Space.permitted] at hoctets hpermitted
  case privateUse => rcases hoctets with h | h | h <;> simp [h, hpermitted]
  case documentation => rcases hoctets with h | h | h <;> simp [h]
  all_goals simp [hoctets, hpermitted]

/-! ## The segment tests -/

section
variable {s0 s1 s2 s3 s4 s5 s6 s7 : ℕ}

theorem grouped_div (h6 : s6 < 65536) (h7 : s7 < 65536) :
    grouped s0 s1 s2 s3 s4 s5 s6 s7 / 2 ^ 32 =
      ((((s0 * 65536 + s1) * 65536 + s2) * 65536 + s3) * 65536 + s4) * 65536 + s5 := by
  unfold grouped
  omega

theorem grouped_mod (h6 : s6 < 65536) (h7 : s7 < 65536) :
    grouped s0 s1 s2 s3 s4 s5 s6 s7 % 2 ^ 32 =
      dotted (s6 / 256) (s6 % 256) (s7 / 256) (s7 % 256) := by
  unfold grouped dotted
  omega

theorem embeds4_grouped (h5 : s5 < 65536) (h6 : s6 < 65536) (h7 : s7 < 65536)
    (h : Embeds4 (grouped s0 s1 s2 s3 s4 s5 s6 s7)) :
    s0 = 0 ∧ s1 = 0 ∧ s2 = 0 ∧ s3 = 0 ∧ s4 = 0 ∧ (s5 = 0xFFFF ∨ s5 = 0) := by
  unfold Embeds4 at h
  rw [grouped_div h6 h7] at h
  omega

/-- What the blocks say of the segments, up to the overlooked blocks. -/
def SegmentsOf (s0 s1 s2 s3 s4 s5 s6 s7 : ℕ) : Space → Prop
  | .loopback => s0 = 0 ∧ s1 = 0 ∧ s2 = 0 ∧ s3 = 0 ∧ s4 = 0 ∧ s5 = 0 ∧ s6 = 0 ∧ s7 = 1
  | .unspecified => s0 = 0 ∧ s1 = 0 ∧ s2 = 0 ∧ s3 = 0 ∧ s4 = 0 ∧ s5 = 0 ∧ s6 = 0 ∧ s7 = 0
  | .linkLocal => s0 / 64 = 0x3FA
  | .multicast => s0 / 256 = 0xFF
  | .documentation => (s0 = 0x2001 ∧ s1 = 0xDB8) ∨
      InBlocks 128 overlookedBlocks (grouped s0 s1 s2 s3 s4 s5 s6 s7)
  | .benchmarking => InBlocks 128 overlookedBlocks (grouped s0 s1 s2 s3 s4 s5 s6 s7)
  | .privateUse => s0 / 512 = 0x7E
  | .reserved | .shared => False

theorem segmentsOf_inBlocks (h1 : s1 < 65536) (h2 : s2 < 65536) (h3 : s3 < 65536)
    (h4 : s4 < 65536) (h5 : s5 < 65536) (h6 : s6 < 65536) (h7 : s7 < 65536) {space : Space}
    (h : InBlocks 128 space.blocks6 (grouped s0 s1 s2 s3 s4 s5 s6 s7)) :
    SegmentsOf s0 s1 s2 s3 s4 s5 s6 s7 space := by
  obtain ⟨block, hmem, hcontains⟩ := h
  cases space <;> simp only [Space.blocks6, List.mem_cons, List.not_mem_nil, or_false] at hmem
  case documentation =>
    rcases hmem with rfl | rfl
    · left
      norm_num [Contains, grouped] at hcontains
      omega
    · right
      exact ⟨_, by simp [overlookedBlocks], hcontains⟩
  case benchmarking =>
    subst hmem
    exact ⟨_, by simp [overlookedBlocks], hcontains⟩
  all_goals
    subst hmem
    norm_num [Contains, grouped, SegmentsOf] at hcontains ⊢
    omega

end

/-- The IPv4 address in the last two segments. -/
def embedded4 (s6 s7 : UInt16) : IpAddr :=
  .v4 (highByte s6) s6.toUInt8 (highByte s7) s7.toUInt8

theorem highByte_toNat (s : UInt16) : (highByte s).toNat = s.toNat / 256 := by
  have hs := s.toNat_lt
  unfold highByte
  rw [UInt16.toNat_toUInt8, UInt16.toNat_shiftRight]
  simp only [UInt16.reduceToNat, Nat.reducePow, Nat.reduceMod, Nat.shiftRight_eq_div_pow]
  omega

theorem embedded4_number (s0 s1 s2 s3 s4 s5 s6 s7 : UInt16) :
    (embedded4 s6 s7).number = (IpAddr.v6 s0 s1 s2 s3 s4 s5 s6 s7).number % 2 ^ 32 := by
  dsimp only [embedded4, IpAddr.number]
  rw [grouped_mod s6.toNat_lt s7.toNat_lt, highByte_toNat, highByte_toNat, UInt16.toNat_toUInt8,
    UInt16.toNat_toUInt8]

theorem dotted_inj {a b c d a' b' c' d' : UInt8}
    (h : (IpAddr.v4 a b c d).number = (IpAddr.v4 a' b' c' d').number) :
    IpAddr.v4 a b c d = IpAddr.v4 a' b' c' d' := by
  have hb := b.toNat_lt
  have hc := c.toNat_lt
  have hd := d.toNat_lt
  have hb' := b'.toNat_lt
  have hc' := c'.toNat_lt
  have hd' := d'.toNat_lt
  dsimp only [IpAddr.number, dotted] at h
  simp only [IpAddr.v4.injEq, ← UInt8.toNat_inj]
  omega

theorem embeds4_segments {s0 s1 s2 s3 s4 s5 s6 s7 : UInt16}
    (h : Embeds4 (IpAddr.v6 s0 s1 s2 s3 s4 s5 s6 s7).number) :
    s0 = 0 ∧ s1 = 0 ∧ s2 = 0 ∧ s3 = 0 ∧ s4 = 0 ∧ (s5 = 0xFFFF ∨ s5 = 0) := by
  have hsegments := embeds4_grouped s5.toNat_lt s6.toNat_lt s7.toNat_lt h
  simpa only [← UInt16.toNat_inj, UInt16.reduceToNat] using hsegments

/-- An embedded IPv4 address has its own verdict. -/
theorem isDangerousIp_embeds4 {allowPrivateIps : Bool} {s0 s1 s2 s3 s4 s5 s6 s7 : UInt16}
    (h : Embeds4 (IpAddr.v6 s0 s1 s2 s3 s4 s5 s6 s7).number) :
    isDangerousIp allowPrivateIps (.v6 s0 s1 s2 s3 s4 s5 s6 s7) =
      isDangerousIp allowPrivateIps (embedded4 s6 s7) := by
  obtain ⟨rfl, rfl, rfl, rfl, rfl, rfl | rfl⟩ := embeds4_segments h
  · simp [isDangerousIp, embeddedDangerous, embedded4]
  · by_cases hzero : s6 = 0 ∧ (s7 = 0 ∨ s7 = 1)
    · obtain ⟨rfl, -⟩ := hzero
      have hhigh : highByte 0 = 0 := rfl
      simp [isDangerousIp, embeddedDangerous, embedded4, isDangerousIpv4, hhigh]
    · simp [isDangerousIp, embeddedDangerous, embedded4, hzero]

/-- Outside the embedded addresses only the first two segments are tested. -/
theorem isDangerousIp_of_ne_zero {allowPrivateIps : Bool} {s0 s1 s2 s3 s4 s5 s6 s7 : UInt16}
    (h : s0 ≠ 0) :
    isDangerousIp allowPrivateIps (.v6 s0 s1 s2 s3 s4 s5 s6 s7) =
      (decide (s0.toNat / 64 = 0x3FA) || decide (s0.toNat / 256 = 0xFF) ||
        (s0 == 0xFD00 && s1 == 0x0EC2) ||
        (!allowPrivateIps && decide (s0.toNat / 512 = 0x7E)) ||
        (s0 == 0x2001 && s1 == 0x0DB8)) := by
  have hlink := segment_mask s0 10 6 0x3FA rfl 0xFFC0 0xFE80 rfl rfl
  have hmulti := segment_mask s0 8 8 0xFF rfl 0xFF00 0xFF00 rfl rfl
  have hlocal := segment_mask s0 7 9 0x7E rfl 0xFE00 0xFC00 rfl rfl
  simp only [Nat.reducePow] at hlink hmulti hlocal
  simp [isDangerousIp, h, hlink, hmulti, hlocal]

theorem dangerous_of_blocks6 {allowPrivateIps : Bool} {s0 s1 s2 s3 s4 s5 s6 s7 : UInt16}
    {space : Space} (hpermitted : space.permitted allowPrivateIps = false)
    (h : InBlocks 128 space.blocks6 (IpAddr.v6 s0 s1 s2 s3 s4 s5 s6 s7).number)
    (hseen : ¬Overlooked (.v6 s0 s1 s2 s3 s4 s5 s6 s7)) :
    isDangerousIp allowPrivateIps (.v6 s0 s1 s2 s3 s4 s5 s6 s7) = true := by
  have hsegments := segmentsOf_inBlocks s1.toNat_lt s2.toNat_lt s3.toNat_lt s4.toNat_lt s5.toNat_lt
    s6.toNat_lt s7.toNat_lt h
  have hzero : s0 = 0 ↔ s0.toNat = 0 := UInt16.toNat_inj.symm
  cases space with
  | loopback | unspecified =>
      simp only [SegmentsOf] at hsegments
      obtain ⟨h0, h1, h2, h3, h4, h5, h6, h7⟩ := hsegments
      simp [isDangerousIp, ← UInt16.toNat_inj, h0, h1, h2, h3, h4, h5, h6, h7]
  | linkLocal | multicast =>
      simp only [SegmentsOf] at hsegments
      rw [isDangerousIp_of_ne_zero (by rw [ne_eq, hzero]; omega)]
      simp [hsegments]
  | privateUse =>
      simp only [SegmentsOf] at hsegments
      rw [isDangerousIp_of_ne_zero (by rw [ne_eq, hzero]; omega)]
      simp only [Space.permitted] at hpermitted
      simp [hsegments, hpermitted]
  | documentation =>
      rcases hsegments with ⟨h0, h1⟩ | hover
      · rw [isDangerousIp_of_ne_zero (by rw [ne_eq, hzero]; omega)]
        simp [← UInt16.toNat_inj, h0, h1]
      · exact absurd hover hseen
  | benchmarking => exact absurd hsegments hseen
  | reserved | shared => exact hsegments.elim

/-- Every forbidden address fails a test or lies in an overlooked block. -/
theorem dangerous_of_forbidden {allowPrivateIps : Bool} {ip : IpAddr}
    (h : Forbidden allowPrivateIps ip) (hseen : ¬Overlooked ip) :
    isDangerousIp allowPrivateIps ip = true := by
  cases ip with
  | v4 a b c d => exact forbidden4_dotted h
  | v6 s0 s1 s2 s3 s4 s5 s6 s7 =>
      rcases h with ⟨space, hpermitted, hblocks⟩ | ⟨hembeds, hforbidden⟩
      · exact dangerous_of_blocks6 hpermitted hblocks hseen
      · rw [isDangerousIp_embeds4 hembeds]
        apply forbidden4_dotted
        rw [← embedded4_number] at hforbidden
        exact hforbidden

/-- No test looks for the overlooked blocks, which are forbidden. -/
theorem forbidden_of_overlooked {allowPrivateIps : Bool} {ip : IpAddr} (h : Overlooked ip) :
    Forbidden allowPrivateIps ip := by
  cases ip with
  | v4 a b c d => exact h.elim
  | v6 s0 s1 s2 s3 s4 s5 s6 s7 =>
      left
      obtain ⟨block, hmem, hcontains⟩ := h
      simp only [overlookedBlocks, List.mem_cons, List.not_mem_nil, or_false] at hmem
      rcases hmem with rfl | rfl
      · exact ⟨.benchmarking, rfl, _, List.mem_singleton_self _, hcontains⟩
      · exact ⟨.documentation, rfl, _, List.mem_cons_of_mem _ (List.mem_singleton_self _), hcontains⟩

end BlackMonolith.SecretBoundary
