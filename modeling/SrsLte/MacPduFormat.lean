import SrsLte.MacPdu
import Mathlib.Algebra.BigOperators.Group.List.Basic

/-!
# The MAC PDU format and its parser

A PDU is a sequence of entries, each an LCID with a payload: all subheaders, then all payloads.
Only the last subheader has the extension bit clear, and it carries no length. The parser gives
back the entries of a PDU when their number stays below `max_subheaders`; beyond, it stops after
`max_subheaders - 1` subheaders and takes the next subheader for payload.
-/

namespace SrsLte

open RxSubh (parseLoop payloadStarts sizePlusHeader parsePacket readBack)

structure MacEntry where
  lcid : ℕ
  payload : Bytes
  deriving DecidableEq

namespace MacEntry

/-- The subheader of the entry can be read back: the LCID has five bits, an SDU has a length of 15
bits, and a CE has the size its LCID stands for; the size of padding is not coded. -/
def Codable (isUl : Bool) (e : MacEntry) : Prop :=
  e.lcid < 32 ∧ e.payload.length < 2 ^ 15 ∧
    (¬ isSdu e.lcid → e.payload.length = sizeofCe e.lcid isUl)

def subheader (isLast : Bool) (e : MacEntry) : Bytes :=
  SchSubh.writeSubheader e.lcid e.payload.length isLast

def subheaders : List MacEntry → Bytes
  | [] => []
  | [e] => e.subheader true
  | e :: e' :: es => e.subheader false ++ subheaders (e' :: es)

def payloads (es : List MacEntry) : Bytes := es.flatMap payload

def encode (es : List MacEntry) : Bytes := subheaders es ++ payloads es

def headerSize (e : MacEntry) : ℕ := if isSdu e.lcid then sizeHeaderSdu e.payload.length else 1

theorem length_subheader_true (e : MacEntry) : (e.subheader true).length = 1 := by
  simp [subheader, SchSubh.writeSubheader]

theorem length_subheader_false (e : MacEntry) : (e.subheader false).length = e.headerSize := by
  unfold subheader SchSubh.writeSubheader headerSize sizeHeaderSdu
  cases isSdu e.lcid with
  | false => simp
  | true =>
    by_cases h : e.payload.length < 128
    · simp [h, Nat.not_le.mpr h]
    · simp [h, Nat.le_of_not_lt h]

theorem headerSize_pos (e : MacEntry) : 0 < e.headerSize := by
  unfold headerSize sizeHeaderSdu
  split_ifs <;> omega

variable {es : List MacEntry} {pdu : Bytes} {ptr : ℕ} {isUl : Bool} {e : MacEntry}

theorem subheaders_cons (e : MacEntry) (h : es ≠ []) :
    subheaders (e :: es) = e.subheader false ++ subheaders es := by
  cases es with
  | nil => exact absurd rfl h
  | cons e' es => rfl

theorem subheaders_append (es : List MacEntry) {es' : List MacEntry} (h : es' ≠ []) :
    subheaders (es ++ es') = es.flatMap (subheader false) ++ subheaders es' := by
  induction es with
  | nil => rfl
  | cons e es ih =>
    rw [List.cons_append, subheaders_cons e (List.append_ne_nil_of_right_ne_nil es h), ih,
      List.flatMap_cons, List.append_assoc]

theorem length_flatMap_subheader (es : List MacEntry) :
    (es.flatMap (subheader false)).length = (es.map headerSize).sum := by
  rw [List.length_flatMap]
  congr 1
  exact List.map_congr_left fun e _ => e.length_subheader_false

def rx (isUl : Bool) (isLast : Bool) (e : MacEntry) : RxSubh :=
  ⟨e.lcid, if isSdu e.lcid then if isLast then 0 else e.payload.length else sizeofCe e.lcid isUl⟩

theorem firstByte {lcid : ℕ} (h : lcid < 32) (isLast : Bool) :
    (UInt8.ofNat ((if isLast then 0 else 1 <<< 5) ||| (lcid &&& 0x1F))).toNat &&& 0x1F = lcid ∧
      decide ((UInt8.ofNat
        ((if isLast then 0 else 1 <<< 5) ||| (lcid &&& 0x1F))).toNat &&& 0x20 ≠ 0) = !isLast := by
  cases isLast
  · have hall : ∀ l < 32, (UInt8.ofNat ((1 <<< 5) ||| (l &&& 0x1F))).toNat &&& 0x1F = l ∧
      decide ((UInt8.ofNat ((1 <<< 5) ||| (l &&& 0x1F))).toNat &&& 0x20 ≠ 0) = true := by decide
    exact hall lcid h
  · have hall : ∀ l < 32, (UInt8.ofNat (0 ||| (l &&& 0x1F))).toNat &&& 0x1F = l ∧
      decide ((UInt8.ofNat (0 ||| (l &&& 0x1F))).toNat &&& 0x20 ≠ 0) = false := by decide
    exact hall lcid h

theorem shortLength : ∀ n < 128, (UInt8.ofNat (n &&& 0x7F)).toNat &&& 0x7F = n ∧
    (UInt8.ofNat (n &&& 0x7F)).toNat &&& 0x80 = 0 := by decide

theorem longLength_high : ∀ n < 128, (UInt8.ofNat (1 <<< 7 ||| n)).toNat &&& 0x7F = n ∧
    (UInt8.ofNat (1 <<< 7 ||| n)).toNat &&& 0x80 ≠ 0 := by decide

theorem longLength {n : ℕ} (h : n < 2 ^ 15) :
    (n &&& 0x7F00) >>> 8 = n / 256 ∧ n / 256 < 128 ∧
      ((n / 256) <<< 8 ||| ((UInt8.ofNat (n &&& 0xFF)).toNat &&& 0xFF)) = n := by
  have hlow : (UInt8.ofNat (n &&& 0xFF)).toNat &&& 0xFF = n % 256 := by
    have h255 (m : ℕ) : m &&& 0xFF = m % 256 := Nat.and_two_pow_sub_one_eq_mod m 8
    rw [h255, h255, UInt8.toNat_ofNat', Nat.mod_mod, Nat.mod_mod]
  refine ⟨?_, by omega, ?_⟩
  · have hmask : (0x7F00 : ℕ) = 0x7F <<< 8 := by decide
    rw [hmask, Nat.shiftRight_and_distrib, Nat.shiftLeft_shiftRight, Nat.shiftRight_eq_div_pow]
    have h127 (m : ℕ) : m &&& 0x7F = m % 128 := Nat.and_two_pow_sub_one_eq_mod m 7
    rw [h127]
    omega
  · rw [hlow, ← Nat.shiftLeft_add_eq_or_of_lt (Nat.mod_lt n (by decide) : n % 256 < 2 ^ 8),
      Nat.shiftLeft_eq]
    omega

theorem getD_append_of_drop {a b : Bytes} (h : pdu.drop ptr = a ++ b) {i : ℕ}
    (hi : i < a.length) : pdu.getD (ptr + i) 0 = a.getD i 0 := by
  rw [List.getD_eq_getElem?_getD, List.getD_eq_getElem?_getD, ← List.getElem?_drop, h,
    List.getElem?_append_left hi]

theorem readSubheader_eq {isLast : Bool} (hlcid : e.lcid < 32)
    (hlen : isLast = false → e.payload.length < 2 ^ 15) {rest : Bytes}
    (h : pdu.drop ptr = e.subheader isLast ++ rest) :
    RxSubh.readSubheader isUl pdu ptr =
      (e.rx isUl isLast, !isLast, ptr + (e.subheader isLast).length) := by
  obtain ⟨hfirst, hext⟩ := firstByte hlcid isLast
  have hbyte {i : ℕ} (hi : i < (e.subheader isLast).length) := getD_append_of_drop h hi
  have h0 := hbyte (i := 0) (by simp [subheader, SchSubh.writeSubheader])
  rw [Nat.add_zero] at h0
  change pdu.getD ptr 0 = UInt8.ofNat _ at h0
  unfold RxSubh.readSubheader rx
  simp only [h0, hfirst, hext]
  cases hsdu : isSdu e.lcid with
  | false =>
    have hl : (e.subheader isLast).length = 1 := by
      simp [subheader, SchSubh.writeSubheader, hsdu]
    simp only [Bool.false_eq_true, if_false, hl]
  | true =>
    cases isLast with
    | true =>
      simp only [length_subheader_true, Bool.not_true, Bool.false_eq_true, if_false, if_true]
    | false =>
      have hl := e.length_subheader_false
      unfold headerSize sizeHeaderSdu at hl
      rw [if_pos hsdu] at hl
      by_cases hshort : e.payload.length < 128
      · rw [if_pos hshort] at hl
        have h1 := hbyte (i := 1) (by omega)
        have h1' : (e.subheader false).getD 1 0 = UInt8.ofNat (e.payload.length &&& 0x7F) := by
          simp [subheader, SchSubh.writeSubheader, hsdu, Nat.not_le.mpr hshort]
        obtain ⟨hval, hbit⟩ := shortLength _ hshort
        simp only [h1, h1', hval, hbit, hl, ne_eq, not_true_eq_false, if_false, if_true,
          Bool.not_false, Bool.false_eq_true]
      · rw [if_neg hshort] at hl
        have h1 := hbyte (i := 1) (by omega)
        have h2 := hbyte (i := 2) (by omega)
        obtain ⟨hhigh, hlt, hsum⟩ := longLength (hlen rfl)
        have h1' :
            (e.subheader false).getD 1 0 = UInt8.ofNat (1 <<< 7 ||| e.payload.length / 256) := by
          simp [subheader, SchSubh.writeSubheader, hsdu, Nat.le_of_not_lt hshort, hhigh]
        have h2' : (e.subheader false).getD 2 0 = UInt8.ofNat (e.payload.length &&& 0xFF) := by
          simp [subheader, SchSubh.writeSubheader, hsdu, Nat.le_of_not_lt hshort]
        obtain ⟨hval, hbit⟩ := longLength_high _ hlt
        simp only [h1, h1', h2, h2', hval, hbit, hsum, hl, ne_eq, not_false_eq_true, if_true,
          Bool.not_false, Bool.false_eq_true, if_false]

theorem subheaders_ne_nil (h : es ≠ []) : subheaders es ≠ [] := by
  intro hnil
  have hlen := congrArg List.length hnil
  cases es with
  | nil => exact h rfl
  | cons e es =>
    by_cases hes : es = []
    · rw [hes] at hlen
      have := e.length_subheader_true
      change (e.subheader true).length = 0 at hlen
      omega
    · rw [subheaders_cons e hes, List.length_append, e.length_subheader_false] at hlen
      have := e.headerSize_pos
      simp only [List.length_nil] at hlen
      omega

section Loop

variable {isUl : Bool} {maxSubheaders : ℕ} {pdu rest : Bytes}

variable {e : MacEntry} {es : List MacEntry} {ptr : ℕ} {read : List RxSubh}

theorem parseLoop_more (hes : es ≠ []) (he : e.Codable isUl)
    (hdrop : pdu.drop ptr = subheaders (e :: es) ++ rest)
    (hroom : read.length < maxSubheaders) (fuel : ℕ) :
    pdu.drop (ptr + e.headerSize) = subheaders es ++ rest ∧
      parseLoop isUl maxSubheaders pdu.length pdu (fuel + 1) read ptr =
        if read.length + 2 < maxSubheaders then
          parseLoop isUl maxSubheaders pdu.length pdu fuel (read ++ [e.rx isUl false])
            (ptr + e.headerSize)
        else some (read ++ [e.rx isUl false], ptr + e.headerSize) := by
  rw [subheaders_cons e hes, List.append_assoc] at hdrop
  have hdrop' : pdu.drop (ptr + e.headerSize) = subheaders es ++ rest := by
    rw [← List.drop_drop, hdrop, ← e.length_subheader_false, List.drop_left]
  have hlt : ptr + e.headerSize < pdu.length := by
    by_contra hle
    rw [List.drop_eq_nil_of_le (Nat.le_of_not_lt hle)] at hdrop'
    exact subheaders_ne_nil hes (List.append_eq_nil_iff.mp hdrop'.symm).1
  refine ⟨hdrop', ?_⟩
  have hconsumed : ¬ ptr + e.headerSize ≥ pdu.length := Nat.not_le.mpr hlt
  rw [parseLoop, if_pos hroom, readSubheader_eq he.1 (fun _ => he.2.1) hdrop]
  simp only [e.length_subheader_false, hconsumed, and_false, if_false, Bool.not_false, true_and,
    List.length_append, List.length_singleton, hlt, and_true]

theorem parseLoop_last (he : e.lcid < 32) (hdrop : pdu.drop ptr = subheaders [e] ++ rest)
    (hroom : read.length < maxSubheaders) (fuel : ℕ) :
    parseLoop isUl maxSubheaders pdu.length pdu (fuel + 1) read ptr =
      some (read ++ [e.rx isUl true], ptr + 1) := by
  rw [parseLoop, if_pos hroom, readSubheader_eq he (fun h => absurd h (by simp)) hdrop]
  simp only [e.length_subheader_true, Bool.not_true, Bool.false_eq_true, false_and, if_false]

theorem parseLoop_full (hcod : ∀ e' ∈ es, e'.Codable isUl)
    (he : e.lcid < 32) (hdrop : pdu.drop ptr = subheaders (es ++ [e]) ++ rest)
    (hroom : read.length < maxSubheaders)
    (hfew : es = [] ∨ read.length + es.length + 1 < maxSubheaders) {fuel : ℕ}
    (hfuel : maxSubheaders ≤ read.length + fuel) :
    parseLoop isUl maxSubheaders pdu.length pdu fuel read ptr =
      some (read ++ (es.map (rx isUl false) ++ [e.rx isUl true]),
        ptr + (subheaders (es ++ [e])).length) := by
  induction es generalizing ptr read fuel with
  | nil =>
    obtain ⟨fuel, rfl⟩ : ∃ k, fuel = k + 1 := ⟨fuel - 1, by omega⟩
    rw [parseLoop_last he hdrop hroom fuel]
    rw [show (subheaders ([] ++ [e])).length = 1 from e.length_subheader_true]
    rfl
  | cons e' es ih =>
    obtain ⟨fuel, rfl⟩ : ∃ k, fuel = k + 1 := ⟨fuel - 1, by omega⟩
    have hfew' := hfew.resolve_left (List.cons_ne_nil e' es)
    rw [List.length_cons] at hfew'
    have hnil : es ++ [e] ≠ [] := by simp
    obtain ⟨hdrop', hstep⟩ := parseLoop_more hnil (hcod e' List.mem_cons_self) hdrop hroom fuel
    have hlen : (read ++ [e'.rx isUl false]).length = read.length + 1 := List.length_append
    rw [hstep, if_pos (by omega), ih (List.forall_mem_cons.mp hcod).2
      hdrop' (by omega) (Or.inr (by omega)) (by omega), List.cons_append,
      subheaders_cons e' hnil, List.length_append, e'.length_subheader_false, List.append_assoc,
      Nat.add_assoc]
    rfl

theorem parseLoop_truncated (hcod : ∀ e' ∈ es, e'.Codable isUl)
    (hdrop : pdu.drop ptr = subheaders (es ++ [e]) ++ rest)
    (hroom : read.length + 1 < maxSubheaders) (hmany : maxSubheaders ≤ read.length + es.length + 1)
    {fuel : ℕ} (hfuel : maxSubheaders ≤ read.length + fuel) :
    ∃ ptr', parseLoop isUl maxSubheaders pdu.length pdu fuel read ptr =
      some (read ++ (es.take (maxSubheaders - 1 - read.length)).map (rx isUl false), ptr') := by
  induction es generalizing ptr read fuel with
  | nil =>
    rw [List.length_nil] at hmany
    omega
  | cons e' es ih =>
    obtain ⟨fuel, rfl⟩ : ∃ k, fuel = k + 1 := ⟨fuel - 1, by omega⟩
    rw [List.length_cons] at hmany
    have hnil : es ++ [e] ≠ [] := by simp
    have hfree : read.length < maxSubheaders := by omega
    obtain ⟨hdrop', hstep⟩ := parseLoop_more hnil (hcod e' List.mem_cons_self) hdrop hfree fuel
    obtain ⟨k, hk⟩ : ∃ k, maxSubheaders - 1 - read.length = k + 1 :=
      ⟨maxSubheaders - 1 - read.length - 1, by omega⟩
    have hlen : (read ++ [e'.rx isUl false]).length = read.length + 1 := List.length_append
    rw [hstep, hk, List.take_succ_cons, List.map_cons]
    by_cases hmore : read.length + 2 < maxSubheaders
    · rw [if_pos hmore]
      have hroom' : (read ++ [e'.rx isUl false]).length + 1 < maxSubheaders := by omega
      have hmany' : maxSubheaders ≤ (read ++ [e'.rx isUl false]).length + es.length + 1 := by omega
      have hfuel' : maxSubheaders ≤ (read ++ [e'.rx isUl false]).length + fuel := by omega
      obtain ⟨ptr', heq⟩ := ih (List.forall_mem_cons.mp hcod).2 hdrop'
        hroom' hmany' hfuel'
      refine ⟨ptr', ?_⟩
      rw [heq, hlen, show maxSubheaders - 1 - (read.length + 1) = k by omega, List.append_assoc]
      rfl
    · rw [if_neg hmore, show k = 0 by omega]
      exact ⟨_, rfl⟩

end Loop

theorem payloadStarts_append (ptr : ℕ) (ss ss' : List RxSubh) :
    payloadStarts ptr (ss ++ ss') = payloadStarts ptr ss ++
      payloadStarts (ptr + (ss.map RxSubh.nofBytes).sum) ss' := by
  induction ss generalizing ptr with
  | nil => simp [payloadStarts]
  | cons s ss ih =>
    simp only [List.cons_append, payloadStarts, ih, List.map_cons, List.sum_cons,
      Nat.add_assoc]

theorem payloadStarts_map_fst (ptr : ℕ) (ss : List RxSubh) :
    (payloadStarts ptr ss).map Prod.fst = ss := by
  induction ss generalizing ptr with
  | nil => rfl
  | cons s ss ih => rw [payloadStarts, List.map_cons, ih]

/-- What `parse_packet` makes of the subheaders its loop has read: the size of the last one is
what the others leave. -/
theorem parsePacket_of_loop {maxSubheaders : ℕ} {ss : List RxSubh} {last : RxSubh}
    (hloop : parseLoop isUl maxSubheaders pdu.length pdu (maxSubheaders + 1) [] 0 =
      some (ss ++ [last], ptr))
    (hroom : (ss.map sizePlusHeader).sum + 1 ≤ pdu.length) :
    parsePacket isUl maxSubheaders pdu.length pdu =
      some (payloadStarts ptr ss ++ [({ last with
        nofBytes := pdu.length - (ss.map sizePlusHeader).sum - 1 },
          ptr + (ss.map RxSubh.nofBytes).sum)]) := by
  have hstarts : payloadStarts ptr (ss ++ [last]) =
      payloadStarts ptr ss ++ [(last, ptr + (ss.map RxSubh.nofBytes).sum)] :=
    payloadStarts_append ptr ss [last]
  unfold parsePacket
  rw [hloop]
  simp only [Option.bind_eq_bind, Option.bind_some, hstarts, List.getLast?_concat,
    List.dropLast_concat, hroom, if_true]
  rfl

theorem sizePlusHeader_rx (he : e.Codable isUl) :
    (e.rx isUl false).sizePlusHeader = e.headerSize + e.payload.length := by
  obtain ⟨-, -, hce⟩ := he
  unfold rx sizePlusHeader headerSize
  cases hsdu : isSdu e.lcid with
  | false =>
    simp only [Bool.false_eq_true, if_false]
    rw [hce (by simp [hsdu])]
  | true => simp only [if_true, Bool.false_eq_true, if_false]

theorem nofBytes_rx (he : e.Codable isUl) : (e.rx isUl false).nofBytes = e.payload.length := by
  obtain ⟨-, -, hce⟩ := he
  unfold rx
  cases hsdu : isSdu e.lcid with
  | false =>
    simp only [Bool.false_eq_true, if_false]
    rw [hce (by simp [hsdu])]
  | true => simp only [if_true, Bool.false_eq_true, if_false]

def readOut (e : MacEntry) : ℕ × ℕ × Bytes := (e.lcid, e.payload.length, e.payload)

def content (es : List MacEntry) : List MacEntry := es.filter fun e => e.lcid ≠ Lcid.padding

section

variable (hcod : ∀ e ∈ es, e.Codable isUl)
include hcod

theorem readBack_payloadStarts {rest : Bytes} (hdrop : pdu.drop ptr = payloads es ++ rest) :
    readBack pdu (payloadStarts ptr (es.map (rx isUl false))) =
      (content es).map readOut := by
  induction es generalizing ptr with
  | nil => rfl
  | cons e es ih =>
    have he := hcod e List.mem_cons_self
    have hdrop' : pdu.drop (ptr + e.payload.length) = payloads es ++ rest := by
      rw [← List.drop_drop, hdrop]
      change ((e.payload ++ payloads es) ++ rest).drop _ = _
      rw [List.append_assoc, List.drop_left]
    have htake : (pdu.drop ptr).take e.payload.length = e.payload := by
      rw [hdrop]
      change ((e.payload ++ payloads es) ++ rest).take _ = _
      rw [List.append_assoc, List.take_left]
    have htail := ih (List.forall_mem_cons.mp hcod).2 hdrop'
    rw [List.map_cons, payloadStarts, nofBytes_rx he]
    unfold readBack content at htail ⊢
    by_cases hpad : e.lcid = Lcid.padding
    · rw [List.filter_cons_of_neg (by simp [rx, hpad]), List.filter_cons_of_neg (by simp [hpad]),
        htail]
    · rw [List.filter_cons_of_pos (by simp [rx, hpad]), List.filter_cons_of_pos (by simp [hpad]),
        List.map_cons, htail, List.map_cons]
      change (e.lcid, (e.rx isUl false).nofBytes,
        (pdu.drop ptr).take (e.rx isUl false).nofBytes) :: _ = _
      rw [nofBytes_rx he, htake]
      rfl

theorem sum_sizePlusHeader_rx :
    ((es.map (rx isUl false)).map sizePlusHeader).sum =
      (es.map fun e => e.headerSize + e.payload.length).sum := by
  rw [List.map_map]
  congr 1
  exact List.map_congr_left fun e he => sizePlusHeader_rx (hcod e he)

theorem sum_nofBytes_rx :
    ((es.map (rx isUl false)).map RxSubh.nofBytes).sum = (payloads es).length := by
  rw [List.map_map, payloads, List.length_flatMap]
  congr 1
  exact List.map_congr_left fun e he => nofBytes_rx (hcod e he)

end

theorem length_encode_concat (es : List MacEntry) (e : MacEntry) :
    (encode (es ++ [e])).length =
      (es.map fun e => e.headerSize + e.payload.length).sum + 1 + e.payload.length := by
  have hsum : (es.map fun e => e.headerSize + e.payload.length).sum =
      (es.map headerSize).sum + (payloads es).length := by
    rw [payloads, List.length_flatMap]
    exact List.sum_map_add
  rw [hsum, encode, subheaders_append es (List.cons_ne_nil e []), List.length_append,
    List.length_append, length_flatMap_subheader, payloads, List.flatMap_append,
    List.length_append]
  change _ + (e.subheader true).length + ((payloads es).length + (e.payload ++ []).length) = _
  rw [length_subheader_true, List.append_nil]
  omega

theorem parsePacket_encode (isUl : Bool) {maxSubheaders : ℕ} (es : List MacEntry)
    (hcod : ∀ e' ∈ es, e'.Codable isUl) (he : e.lcid < 32) (hmax : 0 < maxSubheaders)
    (hfew : es = [] ∨ es.length + 1 < maxSubheaders) :
    ∃ subhs, parsePacket isUl maxSubheaders (encode (es ++ [e])).length
        (encode (es ++ [e])) = some subhs ∧
      readBack (encode (es ++ [e])) subhs = (content (es ++ [e])).map readOut := by
  have hdrop : (encode (es ++ [e])).drop 0 = subheaders (es ++ [e]) ++ payloads (es ++ [e]) := rfl
  have hfew' : es = [] ∨ ([] : List RxSubh).length + es.length + 1 < maxSubheaders := by
    rwa [List.length_nil, Nat.zero_add]
  have hloop := parseLoop_full hcod he hdrop hmax hfew'
    (show maxSubheaders ≤ ([] : List RxSubh).length + (maxSubheaders + 1) by simp)
  rw [List.nil_append, Nat.zero_add] at hloop
  have hlen := length_encode_concat es e
  have hread := sum_sizePlusHeader_rx hcod
  refine ⟨_, parsePacket_of_loop hloop (by omega), ?_⟩
  have hsize : (encode (es ++ [e])).length -
      ((es.map (rx isUl false)).map sizePlusHeader).sum - 1 = e.payload.length := by omega
  have hbody : (encode (es ++ [e])).drop (subheaders (es ++ [e])).length =
      payloads es ++ (e.payload ++ []) := by
    rw [encode, List.drop_left, payloads, List.flatMap_append]
    rfl
  have hpayload : (encode (es ++ [e])).drop
      ((subheaders (es ++ [e])).length + (payloads es).length) = e.payload := by
    rw [← List.drop_drop, hbody, List.drop_left, List.append_nil]
  have hfirst := readBack_payloadStarts hcod hbody
  rw [hsize, sum_nofBytes_rx hcod]
  unfold readBack content at hfirst ⊢
  rw [List.filter_append, List.map_append, hfirst, List.filter_append, List.map_append]
  congr 1
  by_cases hpad : e.lcid = Lcid.padding
  · rw [List.filter_cons_of_neg (by simp [rx, hpad]), List.filter_cons_of_neg (by simp [hpad])]
    rfl
  · rw [List.filter_cons_of_pos (by simp [rx, hpad]), List.filter_cons_of_pos (by simp [hpad])]
    simp only [List.filter_nil, List.map_cons, List.map_nil, hpayload, List.take_length]
    rfl

/-- A PDU with too many subheaders: the parser gives the first `max_subheaders - 1` entries, the
last of them with a size that reaches to the end of the PDU. -/
theorem parsePacket_encode_truncated {k : ℕ} {es' : List MacEntry}
    {e' : MacEntry} (hes : es' = es ++ [e]) (hcod : ∀ x ∈ es, x.Codable isUl)
    {front : List MacEntry} (hfront : es.take (k + 1) = front ++ [e'])
    (hk : k + 1 ≤ es.length) :
    ∃ ptr, parsePacket isUl (k + 2) (encode es').length (encode es') =
      some (payloadStarts ptr (front.map (rx isUl false)) ++
        [(⟨e'.lcid, (encode es').length -
          (front.map fun x => x.headerSize + x.payload.length).sum - 1⟩,
          ptr + (payloads front).length)]) := by
  subst hes
  have hdrop : (encode (es ++ [e])).drop 0 = subheaders (es ++ [e]) ++ payloads (es ++ [e]) := rfl
  obtain ⟨ptr, hloop⟩ := parseLoop_truncated hcod hdrop
    (show ([] : List RxSubh).length + 1 < k + 2 by simp)
    (show k + 2 ≤ ([] : List RxSubh).length + es.length + 1 by simp; omega)
    (show k + 2 ≤ ([] : List RxSubh).length + (k + 2 + 1) by simp)
  have hsub : ∀ x ∈ front ++ [e'], x ∈ es := fun x hx => List.mem_of_mem_take (hfront ▸ hx)
  have hcod' : ∀ x ∈ front, x.Codable isUl := fun x hx =>
    hcod x (hsub x (List.mem_append_left _ hx))
  rw [show k + 2 - 1 - ([] : List RxSubh).length = k + 1 by simp, hfront, List.nil_append,
    List.map_append] at hloop
  have hread := sum_sizePlusHeader_rx hcod'
  have hlen := length_encode_concat es e
  have hle : (front.map fun x => x.headerSize + x.payload.length).sum ≤
      (es.map fun x => x.headerSize + x.payload.length).sum := by
    have hsplit : es = (front ++ [e']) ++ es.drop (k + 1) := by
      rw [← hfront, List.take_append_drop]
    rw [hsplit, List.map_append, List.map_append, List.sum_append, List.sum_append]
    omega
  refine ⟨ptr, ?_⟩
  rw [parsePacket_of_loop hloop (by omega), sum_nofBytes_rx hcod', hread]
  rfl

end MacEntry
end SrsLte
