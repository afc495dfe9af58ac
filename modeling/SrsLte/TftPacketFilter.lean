import SrsLte.ByteBuffer

/-!
# Traffic flow templates

A packet filter of a traffic flow template is a list of components, each a type octet and its value.
The filter keeps the values and a mask of the components that a packet has to match.
-/

namespace SrsLte

def ipv4RemoteAddrFlag : UInt16 := 1
def ipv4LocalAddrFlag : UInt16 := 2
def ipv6RemoteAddrFlag : UInt16 := 4
def ipv6RemoteAddrLengthFlag : UInt16 := 8
def ipv6LocalAddrLengthFlag : UInt16 := 16
def protocolIdFlag : UInt16 := 32
def singleLocalPortFlag : UInt16 := 64
def localPortRangeFlag : UInt16 := 128
def singleRemotePortFlag : UInt16 := 256
def remotePortRangeFlag : UInt16 := 512
def typeOfServiceFlag : UInt16 := 2048

def ipv4RemoteAddrType : UInt8 := 0b00010000
def ipv4LocalAddrType : UInt8 := 0b00010001
def ipv6RemoteAddrType : UInt8 := 0b00100000
def ipv6RemoteAddrLengthType : UInt8 := 0b00100001
def ipv6LocalAddrLengthType : UInt8 := 0b00100011
def protocolIdType : UInt8 := 0b00110000
def singleLocalPortType : UInt8 := 0b01000000
def localPortRangeType : UInt8 := 0b01000001
def singleRemotePortType : UInt8 := 0b01010000
def remotePortRangeType : UInt8 := 0b01010001
def securityParameterIndexType : UInt8 := 0b01100000
def typeOfServiceType : UInt8 := 0b01110000
def flowLabelType : UInt8 := 0b10000000

def ipv4AddrSize : ℕ := 4
def udpProtocol : UInt8 := 0x11

/-- `LIBLTE_MME_PACKET_FILTER_STRUCT`: `filter` is the memory from the start of the array on. -/
structure PacketFilter where
  id : UInt8
  evalPrecedence : UInt8
  filter : ℕ → UInt8
  filterSize : ℕ

namespace PacketFilter

/-- `n` octets of the memory, from `idx` on. -/
def octets (tft : PacketFilter) (idx n : ℕ) : Bytes :=
  (List.range n).map fun i => tft.filter (idx + i)

def content (tft : PacketFilter) : Bytes := tft.octets 0 tft.filterSize

end PacketFilter

/-- `tft_packet_filter_t`. Addresses and ports are the octets that were copied. -/
structure TftPacketFilter where
  epsBearerId : UInt8
  lcid : UInt8
  id : UInt8
  evalPrecedence : UInt8
  activeFilters : UInt16
  ipv4RemoteAddr : Bytes
  ipv4LocalAddr : Bytes
  protocolId : UInt8
  singleLocalPort : Bytes
  singleRemotePort : Bytes
  typeOfService : UInt8
  typeOfServiceMask : UInt8

namespace TftPacketFilter

/-- One round of the loop of the constructor behind the type octet, with the index it goes on at.
The filter returns at a type that it does not know. -/
def takeComponent (tft : PacketFilter) (filterType : UInt8) (idx : ℕ) (f : TftPacketFilter) :
    Option (TftPacketFilter × ℕ) :=
  if filterType = ipv4LocalAddrType then
    some ({ f with
      activeFilters := ipv4LocalAddrFlag
      ipv4LocalAddr := tft.octets idx ipv4AddrSize }, idx + ipv4AddrSize)
  else if filterType = ipv4RemoteAddrType then
    some ({ f with
      activeFilters := ipv4RemoteAddrFlag
      ipv4RemoteAddr := tft.octets idx ipv4AddrSize }, idx + ipv4AddrSize)
  else if filterType = ipv6RemoteAddrType ∨ filterType = ipv6RemoteAddrLengthType ∨
      filterType = ipv6LocalAddrLengthType then
    some (f, idx)
  else if filterType = singleLocalPortType then
    some ({ f with
      activeFilters := singleLocalPortFlag
      singleLocalPort := tft.octets idx 2 }, idx + 2)
  else if filterType = singleRemotePortType then
    some ({ f with
      activeFilters := singleRemotePortFlag
      singleRemotePort := tft.octets idx 2 }, idx + 2)
  else if filterType = localPortRangeType ∨ filterType = remotePortRangeType ∨
      filterType = protocolIdType then
    some (f, idx)
  else if filterType = typeOfServiceType then
    some ({ f with
      activeFilters := typeOfServiceFlag
      typeOfService := tft.filter idx
      typeOfServiceMask := tft.filter (idx + 1) }, idx + 2)
  else if filterType = flowLabelType ∨ filterType = securityParameterIndexType then
    some (f, idx)
  else none

def takeComponents (tft : PacketFilter) : ℕ → ℕ → TftPacketFilter → TftPacketFilter × ℕ
  | 0, idx, f => (f, idx)
  | fuel + 1, idx, f =>
    if idx < tft.filterSize then
      match takeComponent tft (tft.filter idx) (idx + 1) f with
      | some (f', idx') => takeComponents tft fuel idx' f'
      | none => (f, idx + 1)
    else (f, idx)

/-- The constructor leaves the members that no component sets as they are in `memory`. -/
def construct (memory : TftPacketFilter) (epsBearerId lcid : UInt8) (tft : PacketFilter) :
    TftPacketFilter × ℕ :=
  takeComponents tft tft.filterSize 0 { memory with
    epsBearerId := epsBearerId
    lcid := lcid
    id := tft.id
    evalPrecedence := tft.evalPrecedence
    activeFilters := 0 }

end TftPacketFilter

namespace IpPacket

def octet (pdu : Bytes) (i : ℕ) : UInt8 := pdu.getD i 0

/-- `n` octets of the packet, from `i` on. -/
def octets (pdu : Bytes) (i n : ℕ) : Bytes := (List.range n).map fun j => octet pdu (i + j)

def version (pdu : Bytes) : ℕ := (octet pdu 0).toNat / 16
def ihl (pdu : Bytes) : ℕ := (octet pdu 0).toNat % 16
def tos (pdu : Bytes) : UInt8 := octet pdu 1
def protocol (pdu : Bytes) : UInt8 := octet pdu 9
def saddr (pdu : Bytes) : Bytes := octets pdu 12 ipv4AddrSize
def daddr (pdu : Bytes) : Bytes := octets pdu 16 ipv4AddrSize
def nexthdr (pdu : Bytes) : UInt8 := octet pdu 6
def source (pdu : Bytes) : Bytes := octets pdu (ihl pdu * 4) 2
def dest (pdu : Bytes) : Bytes := octets pdu (ihl pdu * 4 + 2) 2

def IsUdp (pdu : Bytes) : Prop :=
  version pdu = 4 ∧ 5 ≤ ihl pdu ∧ protocol pdu = udpProtocol ∧ ihl pdu * 4 + 8 ≤ pdu.length

end IpPacket

namespace TftPacketFilter

open IpPacket

variable (f : TftPacketFilter) (pdu : Bytes)

def matchIp : Bool :=
  if version pdu = 4 then
    if f.activeFilters &&& ipv4LocalAddrFlag ≠ 0 ∧ f.ipv4LocalAddr ≠ saddr pdu then false
    else if f.activeFilters &&& ipv4RemoteAddrFlag ≠ 0 ∧ f.ipv4RemoteAddr ≠ daddr pdu then false
    else true
  else decide (version pdu = 6)

def matchProtocol : Bool :=
  if version pdu = 4 then decide (protocol pdu = f.protocolId)
  else if version pdu = 6 then decide (nexthdr pdu = f.protocolId)
  else false

def matchTypeOfService : Bool :=
  if version pdu = 4 then decide (tos pdu = f.typeOfService)
  else decide (version pdu ≠ 6)

def matchPort : Bool :=
  if version pdu = 4 then
    if protocol pdu = udpProtocol then
      if f.activeFilters &&& singleLocalPortFlag ≠ 0 ∧ source pdu ≠ f.singleLocalPort then false
      else if f.activeFilters &&& singleRemotePortFlag ≠ 0 ∧ dest pdu ≠ f.singleRemotePort then
        false
      else true
    else false
  else true

/-- `match`. -/
def matchPdu : Bool :=
  let ipFlags := ipv4RemoteAddrFlag ||| ipv4LocalAddrFlag ||| ipv6RemoteAddrFlag |||
    ipv6RemoteAddrLengthFlag ||| ipv6LocalAddrLengthFlag
  let portFlags := singleLocalPortFlag ||| localPortRangeFlag ||| singleRemotePortFlag |||
    remotePortRangeFlag
  if f.activeFilters = 0 then false
  else if f.activeFilters &&& ipFlags ≠ 0 ∧ ¬f.matchIp pdu then false
  else if f.activeFilters &&& protocolIdFlag ≠ 0 ∧ ¬f.matchProtocol pdu then false
  else if f.activeFilters &&& portFlags ≠ 0 ∧ ¬f.matchPort pdu then false
  else if f.activeFilters &&& typeOfServiceFlag ≠ 0 ∧ ¬f.matchTypeOfService pdu then false
  else true

end TftPacketFilter

inductive TftComponent
  | ipv4LocalAddr (a b c d : UInt8)
  | ipv4RemoteAddr (a b c d : UInt8)
  | singleLocalPort (hi lo : UInt8)
  | singleRemotePort (hi lo : UInt8)
  | typeOfService (tos mask : UInt8)
  deriving DecidableEq

namespace TftComponent

open IpPacket

def encode : TftComponent → Bytes
  | ipv4LocalAddr a b c d => [ipv4LocalAddrType, a, b, c, d]
  | ipv4RemoteAddr a b c d => [ipv4RemoteAddrType, a, b, c, d]
  | singleLocalPort hi lo => [singleLocalPortType, hi, lo]
  | singleRemotePort hi lo => [singleRemotePortType, hi, lo]
  | typeOfService tos mask => [typeOfServiceType, tos, mask]

def Matches (pdu : Bytes) : TftComponent → Prop
  | ipv4LocalAddr a b c d => saddr pdu = [a, b, c, d]
  | ipv4RemoteAddr a b c d => daddr pdu = [a, b, c, d]
  | singleLocalPort hi lo => source pdu = [hi, lo]
  | singleRemotePort hi lo => dest pdu = [hi, lo]
  | typeOfService tos mask => IpPacket.tos pdu &&& mask = tos &&& mask

end TftComponent

end SrsLte

/-!
The filter that is built from several components keeps the last of them only, and a type of service
without its mask. It matches the packets that all components match exactly when the last one
decides.
-/

namespace SrsLte

open TftPacketFilter IpPacket

variable {tft : PacketFilter} {pdu : Bytes} {idx n : ℕ}

theorem and_or_distrib (x m n : UInt8) : x &&& (m ||| n) = x &&& m ||| x &&& n := by
  rw [← UInt8.toBitVec_inj]
  exact BitVec.and_or_distrib_left

theorem or_and_left (m n : UInt8) : (m ||| n) &&& m = m := by
  rw [← UInt8.toBitVec_inj]
  apply BitVec.eq_of_getElem_eq
  simp +contextual

theorem and_or_eq_iff (x y m n : UInt8) :
    x &&& (m ||| n) = y &&& (m ||| n) ↔ x &&& m = y &&& m ∧ x &&& n = y &&& n := by
  constructor
  · intro h
    have hm := congrArg (· &&& m) h
    have hn := congrArg (· &&& n) h
    simp only [UInt8.and_assoc, or_and_left] at hm
    simp only [UInt8.or_comm m n, UInt8.and_assoc, or_and_left] at hn
    exact ⟨hm, hn⟩
  · rintro ⟨hm, hn⟩
    rw [and_or_distrib, and_or_distrib, hm, hn]

theorem xor_and_distrib (x m n : UInt8) : (x ^^^ m) &&& n = (x &&& n) ^^^ (m &&& n) := by
  rw [← UInt8.toBitVec_inj]
  apply BitVec.eq_of_getElem_eq
  simp [Bool.and_xor_distrib_right]

theorem xor_and_eq_iff (x m n : UInt8) : (x ^^^ m) &&& n = x &&& n ↔ m &&& n = 0 := by
  have hzero : x &&& n = (x &&& n) ^^^ 0 := UInt8.xor_zero.symm
  rw [xor_and_distrib]
  nth_rewrite 2 [hzero]
  exact UInt8.xor_right_inj _

namespace PacketFilter

theorem octets_succ : tft.octets idx (n + 1) = tft.filter idx :: tft.octets (idx + 1) n := by
  unfold octets
  rw [List.range_succ_eq_map, List.map_cons, List.map_map]
  refine congrArg₂ _ rfl (List.map_congr_left fun i _ => ?_)
  exact congrArg tft.filter (by simp only [Nat.succ_eq_add_one]; omega)

theorem octets_add (m : ℕ) :
    tft.octets idx (m + n) = tft.octets idx m ++ tft.octets (idx + m) n := by
  unfold octets
  rw [List.range_add, List.map_append, List.map_map]
  refine congrArg _ (List.map_congr_left fun i _ => ?_)
  exact congrArg tft.filter (Nat.add_assoc idx m i).symm

theorem drop_octets {l : ℕ} (hl : l ≤ n) :
    (tft.octets idx n).drop l = tft.octets (idx + l) (n - l) := by
  have hsplit : tft.octets idx n = tft.octets idx l ++ tft.octets (idx + l) (n - l) := by
    rw [← octets_add, Nat.add_sub_cancel' hl]
  rw [hsplit, List.drop_left' (by rw [octets, List.length_map, List.length_range])]

@[simp]
theorem length_octets : (tft.octets idx n).length = n := by
  rw [octets, List.length_map, List.length_range]

end PacketFilter

namespace TftComponent

def store (f : TftPacketFilter) : TftComponent → TftPacketFilter
  | ipv4LocalAddr a b c d =>
    { f with activeFilters := ipv4LocalAddrFlag, ipv4LocalAddr := [a, b, c, d] }
  | ipv4RemoteAddr a b c d =>
    { f with activeFilters := ipv4RemoteAddrFlag, ipv4RemoteAddr := [a, b, c, d] }
  | singleLocalPort hi lo =>
    { f with activeFilters := singleLocalPortFlag, singleLocalPort := [hi, lo] }
  | singleRemotePort hi lo =>
    { f with activeFilters := singleRemotePortFlag, singleRemotePort := [hi, lo] }
  | typeOfService tos mask =>
    { f with activeFilters := typeOfServiceFlag, typeOfService := tos, typeOfServiceMask := mask }

theorem length_encode_pos (c : TftComponent) : 0 < c.encode.length := by
  cases c <;> exact Nat.succ_pos _

theorem length_le_encode (cs : List TftComponent) :
    cs.length ≤ (cs.flatMap TftComponent.encode).length := by
  induction cs with
  | nil => exact Nat.le_refl 0
  | cons c cs ih =>
    rw [List.length_cons, List.flatMap_cons, List.length_append, Nat.add_comm]
    exact Nat.add_le_add c.length_encode_pos ih

theorem takeComponent_encode (c : TftComponent) (f : TftPacketFilter)
    (h : tft.octets idx c.encode.length = c.encode) :
    takeComponent tft (tft.filter idx) (idx + 1) f = some (c.store f, idx + c.encode.length) := by
  have htail : tft.octets (idx + 1) (c.encode.length - 1) = c.encode.tail := by
    have hlen : c.encode.length = c.encode.length - 1 + 1 := by cases c <;> rfl
    rw [hlen, PacketFilter.octets_succ] at h
    exact congrArg List.tail h
  have hhead : some (tft.filter idx) = c.encode.head? := by
    rw [← h]
    cases c <;> rfl
  cases c with
  | ipv4LocalAddr a b c d =>
    rw [Option.some.inj hhead]
    exact congrArg (fun o => some ({ f with
      activeFilters := ipv4LocalAddrFlag, ipv4LocalAddr := o }, idx + 5)) htail
  | ipv4RemoteAddr a b c d =>
    rw [Option.some.inj hhead]
    exact congrArg (fun o => some ({ f with
      activeFilters := ipv4RemoteAddrFlag, ipv4RemoteAddr := o }, idx + 5)) htail
  | singleLocalPort hi lo =>
    rw [Option.some.inj hhead]
    exact congrArg (fun o => some ({ f with
      activeFilters := singleLocalPortFlag, singleLocalPort := o }, idx + 3)) htail
  | singleRemotePort hi lo =>
    rw [Option.some.inj hhead]
    exact congrArg (fun o => some ({ f with
      activeFilters := singleRemotePortFlag, singleRemotePort := o }, idx + 3)) htail
  | typeOfService tos mask =>
    rw [Option.some.inj hhead]
    have htos : [tft.filter (idx + 1), tft.filter (idx + 2)] = [tos, mask] := htail
    obtain ⟨htos, hmask⟩ := List.cons_eq_cons.mp htos
    have hstore : takeComponent tft typeOfServiceType (idx + 1) f = some ({ f with
        activeFilters := typeOfServiceFlag
        typeOfService := tft.filter (idx + 1)
        typeOfServiceMask := tft.filter (idx + 2) }, idx + 3) := rfl
    rw [hstore, htos, List.head_eq_of_cons_eq hmask]
    rfl

end TftComponent

open TftComponent

theorem takeComponents_encode (cs : List TftComponent) (fuel : ℕ) (f : TftPacketFilter)
    (hcs : tft.octets idx (cs.flatMap encode).length = cs.flatMap encode)
    (hsize : idx + (cs.flatMap encode).length = tft.filterSize) (hfuel : cs.length ≤ fuel) :
    takeComponents tft fuel idx f = (cs.foldl store f, tft.filterSize) := by
  induction cs generalizing idx fuel f with
  | nil =>
    obtain rfl : idx = tft.filterSize := hsize
    cases fuel with
    | zero => rfl
    | succ fuel =>
      rw [takeComponents, if_neg (Nat.lt_irrefl _)]
      rfl
  | cons c cs ih =>
    obtain ⟨fuel, rfl⟩ := Nat.exists_eq_add_one_of_ne_zero
      (Nat.ne_zero_of_lt hfuel)
    rw [List.flatMap_cons, List.length_append, PacketFilter.octets_add] at hcs
    rw [List.flatMap_cons, List.length_append] at hsize
    obtain ⟨hc, hrest⟩ := List.append_inj hcs PacketFilter.length_octets
    have hpos := c.length_encode_pos
    rw [takeComponents, if_pos (by omega), takeComponent_encode c f hc]
    exact ih fuel (c.store f) hrest (by omega) (Nat.le_of_succ_le_succ hfuel)

def TftComponent.MatchesExactly (pdu : Bytes) : TftComponent → Prop
  | typeOfService tos _ => IpPacket.tos pdu = tos
  | c => c.Matches pdu

theorem matchPdu_of_addr (f : TftPacketFilter)
    (h : f.activeFilters = ipv4LocalAddrFlag ∨ f.activeFilters = ipv4RemoteAddrFlag) :
    f.matchPdu pdu = f.matchIp pdu := by
  unfold matchPdu
  cases f.matchIp pdu <;> rcases h with h | h <;> rw [h] <;> rfl

theorem matchPdu_of_port (f : TftPacketFilter)
    (h : f.activeFilters = singleLocalPortFlag ∨ f.activeFilters = singleRemotePortFlag) :
    f.matchPdu pdu = f.matchPort pdu := by
  unfold matchPdu
  cases f.matchPort pdu <;> rcases h with h | h <;> rw [h] <;> rfl

theorem matchPdu_of_tos (f : TftPacketFilter) (h : f.activeFilters = typeOfServiceFlag) :
    f.matchPdu pdu = f.matchTypeOfService pdu := by
  unfold matchPdu
  cases f.matchTypeOfService pdu <;> rw [h] <;> rfl

theorem matchPdu_store (c : TftComponent) (f : TftPacketFilter) (hudp : IsUdp pdu) :
    (c.store f).matchPdu pdu = true ↔ c.MatchesExactly pdu := by
  obtain ⟨hversion, -, hprotocol, -⟩ := hudp
  cases c with
  | ipv4LocalAddr a b c d =>
    rw [matchPdu_of_addr _ (Or.inl rfl), matchIp, if_pos hversion]
    simp +decide [store, MatchesExactly, Matches]
    exact eq_comm
  | ipv4RemoteAddr a b c d =>
    rw [matchPdu_of_addr _ (Or.inr rfl), matchIp, if_pos hversion]
    simp +decide [store, MatchesExactly, Matches]
    exact eq_comm
  | singleLocalPort hi lo =>
    rw [matchPdu_of_port _ (Or.inl rfl), matchPort, if_pos hversion, if_pos hprotocol]
    simp +decide [store, MatchesExactly, Matches]
  | singleRemotePort hi lo =>
    rw [matchPdu_of_port _ (Or.inr rfl), matchPort, if_pos hversion, if_pos hprotocol]
    simp +decide [store, MatchesExactly, Matches]
  | typeOfService tos mask =>
    rw [matchPdu_of_tos _ rfl, matchTypeOfService, if_pos hversion, decide_eq_true_iff]
    rfl

theorem matchPdu_construct (memory : TftPacketFilter) (epsBearerId lcid : UInt8)
    {cs : List TftComponent} (hcs : tft.content = cs.flatMap encode) (hudp : IsUdp pdu) :
    (construct memory epsBearerId lcid tft).1.matchPdu pdu = true ↔
      ∃ c, cs.getLast? = some c ∧ c.MatchesExactly pdu := by
  have hlen : (cs.flatMap encode).length = tft.filterSize := by
    rw [← hcs]
    exact PacketFilter.length_octets
  have hcount : cs.length ≤ tft.filterSize := by
    rw [← hlen]
    exact length_le_encode cs
  rw [construct, takeComponents_encode cs _ _ (by rw [hlen]; exact hcs) (by omega) hcount]
  rcases List.eq_nil_or_concat cs with rfl | ⟨init, c, rfl⟩
  · refine iff_of_false ?_ (by simp)
    simp [matchPdu]
  · rw [List.concat_eq_append, List.foldl_append, List.getLast?_append]
    simp only [List.foldl_cons, List.foldl_nil, List.getLast?_singleton, Option.some_or,
      Option.some.injEq, exists_eq_left']
    exact matchPdu_store c _ hudp

namespace TftComponent

def Implies : TftComponent → TftComponent → Prop
  | typeOfService tos _, typeOfService tos' mask => tos &&& mask = tos' &&& mask
  | _, typeOfService _ mask => mask = 0
  | c, c' => c = c'

def tosMask : TftComponent → UInt8
  | typeOfService _ mask => mask
  | _ => 0

def tosMasks (cs : List TftComponent) : UInt8 := cs.foldr (fun c mask => c.tosMask ||| mask) 0

/-- The last component implies all, and if it is a type of service, the others compare what its
mask leaves out. -/
def LastDecides (cs : List TftComponent) : Prop :=
  ∃ c, cs.getLast? = some c ∧ (∀ c' ∈ cs, c.Implies c') ∧
    ∀ tos mask, c = typeOfService tos mask → tosMasks cs = 0xFF

theorem Implies.matches {c c' : TftComponent} (h : c.Implies c') (hc : c.MatchesExactly pdu) :
    c'.Matches pdu := by
  cases c' with
  | typeOfService tos' mask =>
    cases c with
    | typeOfService tos _ =>
      change IpPacket.tos pdu = tos at hc
      change IpPacket.tos pdu &&& mask = tos' &&& mask
      rw [hc]
      exact h
    | _ =>
      obtain rfl : mask = 0 := h
      change IpPacket.tos pdu &&& 0 = tos' &&& 0
      rw [UInt8.and_zero, UInt8.and_zero]
  | _ =>
    cases c with
    | typeOfService tos _ => cases h
    | _ => cases h <;> exact hc

theorem forall_matches_iff {cs : List TftComponent} {tos mask : UInt8}
    (h : ∀ c ∈ cs, (typeOfService tos mask).Implies c) :
    (∀ c ∈ cs, c.Matches pdu) ↔ IpPacket.tos pdu &&& tosMasks cs = tos &&& tosMasks cs := by
  induction cs with
  | nil => simp [tosMasks]
  | cons c cs ih =>
    have hc := h c List.mem_cons_self
    rw [List.forall_mem_cons, ih (List.forall_mem_cons.mp h).2]
    cases c with
    | typeOfService tos' mask' =>
      change tos &&& mask' = tos' &&& mask' at hc
      change IpPacket.tos pdu &&& mask' = tos' &&& mask' ∧ _ ↔ IpPacket.tos pdu &&&
        (mask' ||| tosMasks cs) = tos &&& (mask' ||| tosMasks cs)
      rw [and_or_eq_iff, hc]
    | _ => cases hc

end TftComponent

structure UdpFields where
  saddr : UInt8 × UInt8 × UInt8 × UInt8
  daddr : UInt8 × UInt8 × UInt8 × UInt8
  source : UInt8 × UInt8
  dest : UInt8 × UInt8
  tos : UInt8

namespace UdpFields

def toPacket (u : UdpFields) : Bytes :=
  [0x45, u.tos, 0, 28, 0, 0, 0, 0, 64, udpProtocol, 0, 0,
    u.saddr.1, u.saddr.2.1, u.saddr.2.2.1, u.saddr.2.2.2,
    u.daddr.1, u.daddr.2.1, u.daddr.2.2.1, u.daddr.2.2.2,
    u.source.1, u.source.2, u.dest.1, u.dest.2, 0, 8, 0, 0]

theorem isUdp_toPacket (u : UdpFields) : IsUdp u.toPacket :=
  ⟨(by decide : (0x45 : UInt8).toNat / 16 = 4), (by decide : 5 ≤ (0x45 : UInt8).toNat % 16), rfl,
    (by decide : (0x45 : UInt8).toNat % 16 * 4 + 8 ≤ 28)⟩

@[simp]
theorem saddr_toPacket (u : UdpFields) : IpPacket.saddr u.toPacket =
    [u.saddr.1, u.saddr.2.1, u.saddr.2.2.1, u.saddr.2.2.2] := rfl

@[simp]
theorem daddr_toPacket (u : UdpFields) : IpPacket.daddr u.toPacket =
    [u.daddr.1, u.daddr.2.1, u.daddr.2.2.1, u.daddr.2.2.2] := rfl

theorem ihl_toPacket (u : UdpFields) : ihl u.toPacket = 5 :=
  (by decide : (0x45 : UInt8).toNat % 16 = 5)

@[simp]
theorem source_toPacket (u : UdpFields) :
    IpPacket.source u.toPacket = [u.source.1, u.source.2] := by
  rw [IpPacket.source, ihl_toPacket]
  rfl

@[simp]
theorem dest_toPacket (u : UdpFields) : IpPacket.dest u.toPacket = [u.dest.1, u.dest.2] := by
  rw [IpPacket.dest, ihl_toPacket]
  rfl

@[simp]
theorem tos_toPacket (u : UdpFields) : IpPacket.tos u.toPacket = u.tos := rfl

def agree (u : UdpFields) : TftComponent → UdpFields
  | .ipv4LocalAddr a b c d => { u with saddr := (a, b, c, d) }
  | .ipv4RemoteAddr a b c d => { u with daddr := (a, b, c, d) }
  | .singleLocalPort hi lo => { u with source := (hi, lo) }
  | .singleRemotePort hi lo => { u with dest := (hi, lo) }
  | .typeOfService tos _ => { u with tos := tos }

def differ (u : UdpFields) : TftComponent → UdpFields
  | .ipv4LocalAddr a b c d => { u with saddr := (a + 1, b, c, d) }
  | .ipv4RemoteAddr a b c d => { u with daddr := (a + 1, b, c, d) }
  | .singleLocalPort hi lo => { u with source := (hi + 1, lo) }
  | .singleRemotePort hi lo => { u with dest := (hi + 1, lo) }
  | .typeOfService tos mask => { u with tos := tos ^^^ mask }

theorem matchesExactly_agree (u : UdpFields) (c : TftComponent) :
    c.MatchesExactly (u.agree c).toPacket := by
  cases c <;> simp [MatchesExactly, Matches, agree]

theorem not_matches_agree (u : UdpFields) {c c' : TftComponent} (h : ¬c.Implies c') :
    ¬c'.Matches ((u.differ c').agree c).toPacket := by
  revert h
  cases c <;> cases c' <;> simp [Implies, Matches, agree, differ, xor_and_eq_iff]

end UdpFields

/-- A filter that compares its last component matches the packets that all match exactly when that
component decides. -/
theorem forall_matches_iff_lastDecides (cs : List TftComponent) :
    (∀ pdu, IsUdp pdu → ((∃ c, cs.getLast? = some c ∧ c.MatchesExactly pdu) ↔
      ∀ c ∈ cs, c.Matches pdu)) ↔ LastDecides cs := by
  let u : UdpFields := ⟨(0, 0, 0, 0), (0, 0, 0, 0), (0, 0), (0, 0), 0⟩
  constructor
  · intro h
    rcases List.eq_nil_or_concat cs with rfl | ⟨init, c, rfl⟩
    · obtain ⟨c, hc, -⟩ := (h u.toPacket u.isUdp_toPacket).mpr fun c hc => by cases hc
      cases hc
    · rw [List.concat_eq_append] at h ⊢
      have hlast : (init ++ [c]).getLast? = some c := List.getLast?_concat
      have hiff : ∀ pdu, IsUdp pdu →
          (c.MatchesExactly pdu ↔ ∀ c' ∈ init ++ [c], c'.Matches pdu) := by
        intro pdu hpdu
        rw [← h pdu hpdu, hlast]
        simp
      have himplies : ∀ c' ∈ init ++ [c], c.Implies c' := by
        intro c' hc'
        by_contra hnot
        refine u.not_matches_agree hnot ((hiff _ (UdpFields.isUdp_toPacket _)).mp ?_ c' hc')
        exact (u.differ c').matchesExactly_agree c
      refine ⟨c, hlast, himplies, ?_⟩
      rintro tos mask rfl
      -- the packet differs from `tos` in the bits that no mask has
      let u' : UdpFields := { u with tos := tos ^^^ ~~~tosMasks (init ++ [typeOfService tos mask]) }
      have hexact : IpPacket.tos u'.toPacket = tos := by
        refine (hiff u'.toPacket u'.isUdp_toPacket).mpr ((forall_matches_iff himplies).mpr ?_)
        rw [UdpFields.tos_toPacket, xor_and_eq_iff, UInt8.not_and_self]
      rw [UdpFields.tos_toPacket] at hexact
      have hzero := hexact.trans (UInt8.xor_zero (a := tos)).symm
      exact UInt8.not_inj.mp ((UInt8.xor_right_inj tos).mp hzero)
  · rintro ⟨c, hlast, himplies, hmask⟩ pdu hudp
    rw [hlast]
    simp only [Option.some.injEq, exists_eq_left']
    refine ⟨fun hc c' hc' => (himplies c' hc').matches hc, fun hall => ?_⟩
    cases c with
    | typeOfService tos mask =>
      have htos := (forall_matches_iff himplies).mp hall
      rw [hmask tos mask rfl] at htos
      exact UInt8.and_neg_one.symm.trans (htos.trans UInt8.and_neg_one)
    | _ => exact hall _ (List.mem_of_getLast? hlast)

def valueLength (filterType : UInt8) : Option ℕ :=
  if filterType = ipv4LocalAddrType ∨ filterType = ipv4RemoteAddrType then some 4
  else if filterType = singleLocalPortType ∨ filterType = singleRemotePortType ∨
      filterType = typeOfServiceType then
    some 2
  else if filterType ∈ [ipv6RemoteAddrType, ipv6RemoteAddrLengthType, ipv6LocalAddrLengthType,
      localPortRangeType, remotePortRangeType, protocolIdType, flowLabelType,
      securityParameterIndexType] then
    some 0
  else none

/-- The values of a filter are complete, as far as its types are known. -/
inductive WholeValues : Bytes → Prop
  | nil : WholeValues []
  | unknown {filterType : UInt8} {rest : Bytes} (htype : valueLength filterType = none) :
      WholeValues (filterType :: rest)
  | value {filterType : UInt8} {value rest : Bytes}
      (htype : valueLength filterType = some value.length) (hrest : WholeValues rest) :
      WholeValues (filterType :: (value ++ rest))

theorem wholeValues_cons_iff {filterType : UInt8} {rest : Bytes} {n : ℕ}
    (htype : valueLength filterType = some n) :
    WholeValues (filterType :: rest) ↔ n ≤ rest.length ∧ WholeValues (rest.drop n) := by
  constructor
  · intro h
    cases h with
    | unknown hnone =>
      rw [htype] at hnone
      cases hnone
    | value hsome hrest =>
      obtain rfl := Option.some.inj (htype.symm.trans hsome)
      rw [List.drop_left, List.length_append]
      exact ⟨Nat.le_add_right _ _, hrest⟩
  · rintro ⟨hn, hrest⟩
    rw [← List.take_append_drop n rest]
    refine .value ?_ hrest
    rw [htype, List.length_take, Nat.min_eq_left hn]

theorem takeComponent_idx (filterType : UInt8) (f : TftPacketFilter) :
    (takeComponent tft filterType idx f).map Prod.snd =
      (valueLength filterType).map (idx + ·) := by
  unfold takeComponent
  split_ifs with h1 h2 h3 h4 h5 h6 h7 h8
  · rw [h1]
    rfl
  · rw [h2]
    rfl
  · rcases h3 with h | h | h <;> rw [h] <;> rfl
  · rw [h4]
    rfl
  · rw [h5]
    rfl
  · rcases h6 with h | h | h <;> rw [h] <;> rfl
  · rw [h7]
    rfl
  · rcases h8 with h | h <;> rw [h] <;> rfl
  · simp only [not_or] at h3 h6 h8
    simp [valueLength, h1, h2, h3, h4, h5, h6, h7, h8]

theorem takeComponents_behind (fuel : ℕ) (f : TftPacketFilter) (hidx : tft.filterSize ≤ idx) :
    takeComponents tft fuel idx f = (f, idx) := by
  cases fuel with
  | zero => rfl
  | succ fuel => rw [takeComponents, if_neg (Nat.not_lt.mpr hidx)]

theorem takeComponents_inside_iff (fuel idx : ℕ) (f : TftPacketFilter)
    (hfuel : tft.filterSize ≤ idx + fuel) (hidx : idx ≤ tft.filterSize) :
    (takeComponents tft fuel idx f).2 ≤ tft.filterSize ↔
      WholeValues (tft.octets idx (tft.filterSize - idx)) := by
  induction fuel generalizing idx f with
  | zero =>
    obtain rfl : idx = tft.filterSize := by omega
    rw [Nat.sub_self]
    exact iff_of_true hidx .nil
  | succ fuel ih =>
    rw [takeComponents]
    split_ifs with hlt
    · obtain ⟨n, hn⟩ := Nat.exists_eq_add_of_lt hlt
      have hrest : tft.filterSize - idx = n + 1 := by omega
      have hsnd := @takeComponent_idx tft (idx + 1) (tft.filter idx) f
      rw [hrest, PacketFilter.octets_succ]
      cases hlength : valueLength (tft.filter idx) with
      | none =>
        rw [hlength, Option.map_none, Option.map_eq_none_iff] at hsnd
        rw [hsnd]
        exact iff_of_true hlt (.unknown hlength)
      | some l =>
        rw [hlength, Option.map_some, Option.map_eq_some_iff] at hsnd
        obtain ⟨⟨f', idx'⟩, htake, hidx'⟩ := hsnd
        rw [htake, wholeValues_cons_iff hlength]
        dsimp only at hidx' ⊢
        subst hidx'
        rw [PacketFilter.length_octets]
        by_cases hl : l ≤ n
        · rw [and_iff_right hl, PacketFilter.drop_octets hl, ih _ f' (by omega) (by omega),
            show tft.filterSize - (idx + 1 + l) = n - l by omega]
        · rw [takeComponents_behind fuel f' (by omega)]
          exact iff_of_false (by dsimp only; omega) fun h => hl h.1
    · obtain rfl : idx = tft.filterSize := by omega
      rw [Nat.sub_self]
      exact iff_of_true hidx .nil

namespace PacketFilter

/-- The constructor reads no octet behind the filter, and where the filter is a list of supported
components, it matches an IPv4 packet of UDP if and only if all of them do. -/
def Sound (tft : PacketFilter) : Prop :=
  ∀ (memory : TftPacketFilter) (epsBearerId lcid : UInt8),
    (construct memory epsBearerId lcid tft).2 ≤ tft.filterSize ∧
    ∀ cs : List TftComponent, tft.content = cs.flatMap encode → ∀ pdu, IsUdp pdu →
      ((construct memory epsBearerId lcid tft).1.matchPdu pdu = true ↔ ∀ c ∈ cs, c.Matches pdu)

theorem filter_sound_iff (tft : PacketFilter) :
    tft.Sound ↔ WholeValues tft.content ∧
      ∀ cs : List TftComponent, tft.content = cs.flatMap encode → LastDecides cs := by
  have hinside : ∀ memory epsBearerId lcid,
      (construct memory epsBearerId lcid tft).2 ≤ tft.filterSize ↔ WholeValues tft.content := by
    intro memory epsBearerId lcid
    exact takeComponents_inside_iff _ 0 _ (by omega) (Nat.zero_le _)
  have hmatch : ∀ memory epsBearerId lcid (cs : List TftComponent),
      tft.content = cs.flatMap encode →
        ((∀ pdu, IsUdp pdu → ((construct memory epsBearerId lcid tft).1.matchPdu pdu = true ↔
          ∀ c ∈ cs, c.Matches pdu)) ↔ LastDecides cs) := by
    intro memory epsBearerId lcid cs hcs
    rw [← forall_matches_iff_lastDecides]
    refine forall₂_congr fun pdu hudp => ?_
    rw [matchPdu_construct memory epsBearerId lcid hcs hudp]
  let memory : TftPacketFilter := ⟨0, 0, 0, 0, 0, [], [], 0, [], [], 0, 0⟩
  constructor
  · intro h
    obtain ⟨hread, hmatches⟩ := h memory 0 0
    exact ⟨(hinside _ _ _).mp hread, fun cs hcs => (hmatch _ _ _ cs hcs).mp (hmatches cs hcs)⟩
  · rintro ⟨hwhole, hdecides⟩ memory epsBearerId lcid
    exact ⟨(hinside _ _ _).mpr hwhole, fun cs hcs => (hmatch _ _ _ cs hcs).mpr (hdecides cs hcs)⟩

/-- The local port 5060 and the remote port 80: the packet comes from another port. -/
theorem local_port_lost : ¬∀ tft : PacketFilter, tft.Sound := by
  intro h
  let bytes : Bytes := [singleLocalPortType, 0x13, 0xC4, singleRemotePortType, 0, 80]
  let u : UdpFields := ⟨(10, 0, 0, 1), (10, 0, 0, 2), (0, 22), (0, 80), 0⟩
  obtain ⟨-, hmatch⟩ := h ⟨1, 0, fun i => bytes.getD i 0, 6⟩
    ⟨0, 0, 0, 0, 0, [], [], 0, [], [], 0, 0⟩ 5 3
  have hall := (hmatch [.singleLocalPort 0x13 0xC4, .singleRemotePort 0 80] rfl u.toPacket
    u.isUdp_toPacket).mp (by decide)
  have hport : IpPacket.source u.toPacket = [0x13, 0xC4] := hall _ List.mem_cons_self
  rw [UdpFields.source_toPacket] at hport
  exact absurd hport (by decide)

end PacketFilter

end SrsLte
