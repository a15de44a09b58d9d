import Mathlib.Data.BitVec
import Mathlib.Data.List.GetD

/-!
# The response with the information of the firmware

`sprdwl_get_fw_info` takes sections of the response to `WIFI_CMD_GET_INFO` as far as they were
received, and then elements of a type, a length and a value.
-/
namespace Uwe5631.FwInfo

abbrev Byte := BitVec 8

def ETH_ALEN : ℕ := 6
def SEC1_LEN : ℕ := 24
/-- `sizeof(struct wiphy_sec2_t)` -/
def SEC2_LEN : ℕ := 52
/-- `sizeof(struct sprdwl_cmd_fw_info)` -/
def FW_INFO_LEN : ℕ := 88
def GET_INFO_TLV_RBUF_SIZE : ℕ := 300
def GET_INFO_TLV_TP_OTT : ℕ := 1
/-- `sizeof(struct sprdwl_tlv_data)` -/
def TLV_HEADER : ℕ := 4
def VERSION_1 : ℕ := 1
def TX_WITH_CREDIT : Byte := 0
def OTT_NO_SUPT : Byte := 0

/-- What `struct sprdwl_priv` keeps of the response. -/
structure Priv where
  chipModel : ℕ
  chipVer : ℕ
  fwVer : ℕ
  fwStd : ℕ
  fwCapa : ℕ
  extendFeature : ℕ
  maxApAssocSta : Byte
  maxAclMacAddrs : Byte
  maxMcMacAddrs : Byte
  wnmFtSupport : Byte
  wiphySec2Flag : Bool
  wiphySec2 : List Byte
  macAddr : List Byte
  creditCapa : Byte
  ottSupt : Byte
  deriving DecidableEq, Repr

/-- What the function has done: the sections it took and the pieces of the elements it read, by offset
and length, the elements it processed and `len_count`. -/
structure Run where
  priv : Priv
  sections : List (ℕ × ℕ)
  reads : List (ℕ × ℕ)
  processed : List ℕ
  lenCount : ℕ
  deriving DecidableEq, Repr

variable (rbuf : ℕ → Byte) (rLen : ℕ)

def le16 (pos : ℕ) : ℕ := (rbuf pos).toNat + 256 * (rbuf (pos + 1)).toNat

def le32 (pos : ℕ) : ℕ := le16 rbuf pos + 65536 * le16 rbuf (pos + 2)

def bytes (pos len : ℕ) : List Byte := (List.range len).map fun i => rbuf (pos + i)

/-- `r_len - len_count`, of unsigned numbers -/
def remaining (lenCount : ℕ) : ℕ := (rLen + 2 ^ 32 - lenCount) % 2 ^ 32

/-- `Version 1 Section`, up to the check of the second section -/
def section1 (priv : Priv) : Priv :=
  { priv with
    chipModel := le32 rbuf 0
    chipVer := le32 rbuf 4
    fwVer := le32 rbuf 8
    fwStd := le32 rbuf 12
    fwCapa := le32 rbuf 16
    maxApAssocSta := rbuf 20
    maxAclMacAddrs := rbuf 21
    maxMcMacAddrs := rbuf 22
    wnmFtSupport := rbuf 23
    extendFeature := le32 rbuf 84 }

/-- Whether an element passes its check. -/
def tlvDataChk (lenCount : ℕ) : Bool :=
  le16 rbuf lenCount = GET_INFO_TLV_TP_OTT ∧ le16 rbuf (lenCount + 2) = 1

/-- The test of the loop reads the length of an element, before that is known to lie in the
response. -/
def Run.test (r : Run) : Run := { r with reads := r.reads ++ [(r.lenCount + 2, 2)] }

/-- The body of the loop up to `b_tlv_data_chk`. -/
def Run.enter (r : Run) : Run :=
  { r.test with
    reads := r.test.reads ++ [(r.lenCount, 2)]
    processed := r.processed ++ [r.lenCount] }

/-- An element that passes its check. -/
def Run.takeOtt (r : Run) : Run :=
  { r.enter with
    priv := { r.priv with ottSupt := rbuf (r.lenCount + TLV_HEADER) }
    reads := r.enter.reads ++ [(r.lenCount + TLV_HEADER, 1)]
    lenCount := r.lenCount + TLV_HEADER + le16 rbuf (r.lenCount + 2) }

/-- The loop over the elements. -/
def tlvLoop (r : Run) : Run :=
  if r.lenCount + TLV_HEADER + le16 rbuf (r.lenCount + 2) ≤ rLen then
    if tlvDataChk rbuf r.lenCount then tlvLoop (r.takeOtt rbuf) else r.enter
  else r.test
  termination_by rLen - r.lenCount
  decreasing_by
    simp only [Run.takeOtt, TLV_HEADER] at *
    omega

/-- `Version 2 Section` -/
def section2 (compatVer : ℕ) (r : Run) : Run :=
  if compatVer = VERSION_1 then { r with priv := { r.priv with ottSupt := OTT_NO_SUPT } }
  else tlvLoop rbuf rLen { r with lenCount := FW_INFO_LEN }

/-- The response, once it is received. -/
def parse (compatVer : ℕ) (priv : Priv) : Run :=
  let r : Run := ⟨section1 rbuf priv, [], [], [], SEC1_LEN⟩
  if remaining rLen SEC1_LEN ≥ SEC2_LEN then
    let r := { r with
      priv := { r.priv with wiphySec2Flag := true, wiphySec2 := bytes rbuf SEC1_LEN SEC2_LEN }
      sections := [(SEC1_LEN, SEC2_LEN)]
      lenCount := SEC1_LEN + SEC2_LEN }
    if remaining rLen (SEC1_LEN + SEC2_LEN) ≥ ETH_ALEN then
      let r := { r with
        priv := { r.priv with macAddr := bytes rbuf (SEC1_LEN + SEC2_LEN) ETH_ALEN }
        sections := r.sections ++ [(SEC1_LEN + SEC2_LEN, ETH_ALEN)]
        lenCount := SEC1_LEN + SEC2_LEN + ETH_ALEN }
      if remaining rLen (SEC1_LEN + SEC2_LEN + ETH_ALEN) ≥ 1 then
        section2 rbuf rLen compatVer { r with
          priv := { r.priv with creditCapa := rbuf (SEC1_LEN + SEC2_LEN + ETH_ALEN) }
          sections := r.sections ++ [(SEC1_LEN + SEC2_LEN + ETH_ALEN, 1)] }
      else section2 rbuf rLen compatVer { r with priv := { r.priv with creditCapa := TX_WITH_CREDIT } }
    else { r with priv := { r.priv with macAddr := List.replicate ETH_ALEN 0 } }
  else r

/-- `r_len` behind `sprdwl_cmd_send_recv`, which fills the buffer at most -/
def rLenOf (payload : List Byte) : ℕ := min (FW_INFO_LEN + GET_INFO_TLV_RBUF_SIZE) payload.length

/-- `r_buf`, which was cleared before -/
def received (payload : List Byte) (i : ℕ) : Byte := (payload.take (rLenOf payload)).getD i 0

/-- `sprdwl_get_fw_info`, after the command, with the payload of its response -/
def getFwInfo (compatVer : ℕ) (priv : Priv) (payload : List Byte) : Run :=
  if rLenOf payload = 0 then ⟨priv, [], [], [], 0⟩
  else parse (received payload) (rLenOf payload) compatVer priv

/-! ## What is received -/

/-- The elements from an offset on, up to the end of the response. -/
inductive Tiles : ℕ → List ℕ → Prop
  | nil : Tiles rLen []
  | cons {c : ℕ} {cs : List ℕ} : c + TLV_HEADER + le16 rbuf (c + 2) ≤ rLen →
      Tiles (c + TLV_HEADER + le16 rbuf (c + 2)) cs → Tiles c (c :: cs)

/-- From an offset on the elements pass their checks, until one does not or has its header in the
response but not its value. -/
inductive StopsInside : ℕ → Prop
  | cut {c : ℕ} : c + TLV_HEADER ≤ rLen → rLen < c + TLV_HEADER + le16 rbuf (c + 2) → StopsInside c
  | rejected {c : ℕ} : c + TLV_HEADER + le16 rbuf (c + 2) ≤ rLen → tlvDataChk rbuf c = false →
      StopsInside c
  | next {c : ℕ} : c + TLV_HEADER + le16 rbuf (c + 2) ≤ rLen → tlvDataChk rbuf c = true →
      StopsInside (c + TLV_HEADER + le16 rbuf (c + 2)) → StopsInside c

/-- A piece of the response. -/
def Received (piece : ℕ × ℕ) : Prop := piece.1 + piece.2 ≤ rLen

/-- Only what was received is taken and read, and of a response that is elements behind the fixed part
each is processed once and in order, up to the end. -/
structure Reads (compatVer : ℕ) (r : Run) : Prop where
  sections : ∀ s ∈ r.sections, Received rLen s
  reads : ∀ s ∈ r.reads, Received rLen s
  tiled : compatVer ≠ VERSION_1 → ∀ cs, Tiles rbuf rLen FW_INFO_LEN cs →
    r.processed = cs ∧ r.lenCount = rLen

variable {rbuf rLen}

theorem tlvLoop_sections (r : Run) : (tlvLoop rbuf rLen r).sections = r.sections := by
  induction r using tlvLoop.induct rbuf rLen with
  | case1 r hle hchk ih => rw [tlvLoop, if_pos hle, if_pos hchk, ih]; rfl
  | case2 r hle hchk => rw [tlvLoop, if_pos hle, if_neg hchk]; rfl
  | case3 r hle => rw [tlvLoop, if_neg hle]; rfl

theorem received_append {xs ys : List (ℕ × ℕ)} : (∀ s ∈ xs ++ ys, Received rLen s) ↔
    (∀ s ∈ xs, Received rLen s) ∧ ∀ s ∈ ys, Received rLen s := List.forall_mem_append

theorem received_singleton {pos len : ℕ} : (∀ s ∈ [(pos, len)], Received rLen s) ↔
    pos + len ≤ rLen := List.forall_mem_singleton

/-- The loop reads only what was received if and only if it stops inside. -/
theorem tlvLoop_reads_iff (r : Run) :
    (∀ s ∈ (tlvLoop rbuf rLen r).reads, Received rLen s) ↔
      (∀ s ∈ r.reads, Received rLen s) ∧ StopsInside rbuf rLen r.lenCount := by
  have hheader : TLV_HEADER = 4 := rfl
  induction r using tlvLoop.induct rbuf rLen with
  | case1 r hle hchk ih =>
    rw [tlvLoop, if_pos hle, if_pos hchk]
    refine ih.trans ?_
    have hone : le16 rbuf (r.lenCount + 2) = 1 := (of_decide_eq_true hchk).2
    simp only [Run.takeOtt, Run.enter, Run.test, received_append, received_singleton]
    constructor
    · rintro ⟨⟨⟨⟨hreads, -⟩, -⟩, -⟩, hrest⟩
      exact ⟨hreads, .next hle hchk hrest⟩
    · rintro ⟨hreads, hstops⟩
      refine ⟨⟨⟨⟨hreads, by omega⟩, by omega⟩, by omega⟩, ?_⟩
      cases hstops with
      | cut _ hlong => exact absurd hle (Nat.not_le.mpr hlong)
      | rejected _ hno =>
        rw [hno] at hchk
        cases hchk
      | next _ _ hrest => exact hrest
  | case2 r hle hchk =>
    rw [tlvLoop, if_pos hle, if_neg hchk]
    simp only [Run.enter, Run.test, received_append, received_singleton]
    constructor
    · rintro ⟨⟨hreads, -⟩, -⟩
      exact ⟨hreads, .rejected hle (Bool.eq_false_iff.mpr hchk)⟩
    · rintro ⟨hreads, -⟩
      exact ⟨⟨hreads, by omega⟩, by omega⟩
  | case3 r hle =>
    rw [tlvLoop, if_neg hle]
    simp only [Run.test, received_append, received_singleton]
    constructor
    · rintro ⟨hreads, hlast⟩
      exact ⟨hreads, .cut (by omega) (Nat.lt_of_not_le hle)⟩
    · rintro ⟨hreads, hstops⟩
      refine ⟨hreads, ?_⟩
      cases hstops with
      | cut hin _ => omega
      | rejected hin => exact absurd hin hle
      | next hin => exact absurd hin hle

/-- Where the loop stops inside the response it has not got to its end. -/
theorem lenCount_ne_of_stopsInside {c : ℕ} (hstops : StopsInside rbuf rLen c) :
    ∀ r : Run, r.lenCount = c → (tlvLoop rbuf rLen r).lenCount ≠ rLen := by
  have hheader : TLV_HEADER = 4 := rfl
  induction hstops with
  | @cut c hin hlong =>
    rintro r rfl
    rw [tlvLoop, if_neg (by omega), Run.test]
    dsimp only
    omega
  | @rejected c hle hno =>
    rintro r rfl
    rw [tlvLoop, if_pos hle, if_neg (by rw [hno]; decide), Run.enter, Run.test]
    dsimp only
    omega
  | @next c hle hchk _ ih =>
    rintro r rfl
    rw [tlvLoop, if_pos hle, if_pos hchk]
    exact ih _ rfl

/-- The loop does what it should if and only if it stops inside a response that is not elements up to
its end. -/
theorem reads_tlvLoop_iff {compatVer : ℕ} (hcompat : compatVer ≠ VERSION_1) (r : Run)
    (hsections : ∀ s ∈ r.sections, Received rLen s) (hreads : r.reads = [])
    (hcount : r.lenCount = FW_INFO_LEN) :
    Reads rbuf rLen compatVer (tlvLoop rbuf rLen r) ↔
      StopsInside rbuf rLen FW_INFO_LEN ∧ ¬ ∃ cs, Tiles rbuf rLen FW_INFO_LEN cs := by
  have hiff : (∀ s ∈ (tlvLoop rbuf rLen r).reads, Received rLen s) ↔ _ := tlvLoop_reads_iff r
  rw [hreads, hcount] at hiff
  constructor
  · intro h
    obtain ⟨-, hstops⟩ := hiff.mp h.reads
    refine ⟨hstops, fun ⟨cs, hcs⟩ => ?_⟩
    exact lenCount_ne_of_stopsInside hstops r hcount (h.tiled hcompat cs hcs).2
  · rintro ⟨hstops, hno⟩
    refine ⟨?_, hiff.mpr ⟨fun s hs => (by cases hs), hstops⟩, fun _ cs hcs => absurd ⟨cs, hcs⟩ hno⟩
    rw [tlvLoop_sections]
    exact hsections

/-- The elements of a response are processed, once each and in order, if they pass their checks. -/
theorem tlvLoop_of_tiles {c : ℕ} {cs : List ℕ} (htiles : Tiles rbuf rLen c cs)
    (hchk : ∀ c ∈ cs, tlvDataChk rbuf c = true) (r : Run) (hcount : r.lenCount = c) :
    (tlvLoop rbuf rLen r).processed = r.processed ++ cs ∧ (tlvLoop rbuf rLen r).lenCount = rLen := by
  have hheader : TLV_HEADER = 4 := rfl
  induction htiles generalizing r with
  | nil =>
    rw [tlvLoop, if_neg (by omega), Run.test, List.append_nil]
    exact ⟨rfl, hcount⟩
  | @cons c cs hle _ ih =>
    subst hcount
    rw [tlvLoop, if_pos hle, if_pos (hchk _ List.mem_cons_self)]
    obtain ⟨hprocessed, hend⟩ := ih (fun c hc => hchk c (List.mem_cons_of_mem _ hc)) (r.takeOtt rbuf) rfl
    refine ⟨?_, hend⟩
    rw [hprocessed, Run.takeOtt, Run.enter, List.append_assoc]
    rfl

/-- The response of which nothing but sections is read, or elements that the loop stops inside of. -/
def Clean (rbuf : ℕ → Byte) (rLen compatVer : ℕ) : Prop :=
  SEC1_LEN ≤ rLen ∧ (rLen < SEC1_LEN + SEC2_LEN + ETH_ALEN ∨ compatVer = VERSION_1 ∨
    (StopsInside rbuf rLen FW_INFO_LEN ∧ ¬ ∃ cs, Tiles rbuf rLen FW_INFO_LEN cs))

theorem remaining_of_le {lenCount : ℕ} (h : lenCount ≤ rLen) (hlen : rLen < 2 ^ 32) :
    remaining rLen lenCount = rLen - lenCount := by
  rw [remaining]
  omega

/-- A response that is shorter than what was counted leaves a remainder of nearly `2 ^ 32`. -/
theorem remaining_of_lt {lenCount : ℕ} (h : rLen < lenCount) (hlen : lenCount ≤ 100) :
    2 ^ 32 - 100 ≤ remaining rLen lenCount := by
  rw [remaining]
  omega

theorem tiles_le {c : ℕ} {cs : List ℕ} (h : Tiles rbuf rLen c cs) : c ≤ rLen := by
  cases h with
  | nil => exact Nat.le_refl _
  | cons hle => omega

/-- The third section, with or without the credit capability. -/
theorem reads_section2_iff {compatVer : ℕ} (r : Run) (hsections : ∀ s ∈ r.sections, Received rLen s)
    (hreads : r.reads = []) :
    Reads rbuf rLen compatVer (section2 rbuf rLen compatVer r) ↔ compatVer = VERSION_1 ∨
      (StopsInside rbuf rLen FW_INFO_LEN ∧ ¬ ∃ cs, Tiles rbuf rLen FW_INFO_LEN cs) := by
  rw [section2]
  split
  · rename_i hcompat
    refine ⟨fun _ => .inl hcompat, fun _ => ⟨hsections, ?_, fun h => absurd hcompat h⟩⟩
    intro s hs
    rw [hreads] at hs
    cases hs
  · rename_i hcompat
    refine (reads_tlvLoop_iff hcompat { r with lenCount := FW_INFO_LEN } hsections hreads rfl).trans ?_
    exact ⟨.inr, fun h => h.resolve_left hcompat⟩

/-- A run that took no more than was received before the elements. -/
theorem reads_of_short {compatVer : ℕ} {r : Run} (hsections : ∀ s ∈ r.sections, Received rLen s)
    (hreads : r.reads = []) (hshort : rLen < FW_INFO_LEN) : Reads rbuf rLen compatVer r where
  sections := hsections
  reads s hs := by
    rw [hreads] at hs
    cases hs
  tiled _ cs hcs := absurd (tiles_le hcs) (Nat.not_le.mpr hshort)

theorem reads_parse_iff (compatVer : ℕ) (priv : Priv) (hlen : rLen < 2 ^ 32) :
    Reads rbuf rLen compatVer (parse rbuf rLen compatVer priv) ↔ Clean rbuf rLen compatVer := by
  have hone : SEC1_LEN = 24 := rfl
  have htwo : SEC2_LEN = 52 := rfl
  have halen : ETH_ALEN = 6 := rfl
  have hinfo : FW_INFO_LEN = 88 := rfl
  rw [Clean]
  rcases Nat.lt_or_ge rLen SEC1_LEN with hshort | hfirst
  · -- the second section is taken whatever its bytes
    have hwrap := remaining_of_lt hshort (by omega)
    refine ⟨fun h => ?_, fun h => absurd h.1 (Nat.not_le.mpr hshort)⟩
    have htaken : (SEC1_LEN, SEC2_LEN) ∈ (parse rbuf rLen compatVer priv).sections := by
      rw [parse]
      dsimp only
      rw [if_pos (by omega)]
      split
      · split <;> (rw [section2]; split) <;>
          first
          | exact List.mem_append_left _ (List.mem_append_left _ (List.mem_singleton_self _))
          | exact List.mem_append_left _ (List.mem_singleton_self _)
          | (rw [tlvLoop_sections]; simp)
      · exact List.mem_singleton_self _
    have hin : SEC1_LEN + SEC2_LEN ≤ rLen := h.sections _ htaken
    omega
  · rw [parse]
    dsimp only
    have hrem := remaining_of_le hfirst hlen
    rcases Nat.lt_or_ge rLen (SEC1_LEN + SEC2_LEN) with hshort | hsecond
    · rw [if_neg (by omega)]
      refine ⟨fun _ => ⟨hfirst, .inl (by omega)⟩, fun _ => ?_⟩
      exact reads_of_short (fun s hs => (by cases hs)) rfl (by omega)
    · have hrem' := remaining_of_le hsecond hlen
      have hsec2 : Received rLen (SEC1_LEN, SEC2_LEN) := hsecond
      rw [if_pos (by omega)]
      rcases Nat.lt_or_ge rLen (SEC1_LEN + SEC2_LEN + ETH_ALEN) with hshort | hmac
      · rw [if_neg (by omega)]
        refine ⟨fun _ => ⟨hfirst, .inl hshort⟩, fun _ => ?_⟩
        refine reads_of_short (fun s hs => ?_) rfl (by omega)
        rw [List.mem_singleton.mp hs]
        exact hsec2
      · have hrem'' := remaining_of_le hmac hlen
        have hmac' : Received rLen (SEC1_LEN + SEC2_LEN, ETH_ALEN) := hmac
        have hboth : ∀ s ∈ [(SEC1_LEN, SEC2_LEN)] ++ [(SEC1_LEN + SEC2_LEN, ETH_ALEN)],
            Received rLen s := received_append.mpr
          ⟨List.forall_mem_singleton.mpr hsec2, List.forall_mem_singleton.mpr hmac'⟩
        rw [if_pos (by omega)]
        have hrest : ∀ p : Prop, p ↔ SEC1_LEN ≤ rLen ∧
            (rLen < SEC1_LEN + SEC2_LEN + ETH_ALEN ∨ p) := fun p =>
          ⟨fun h => ⟨hfirst, .inr h⟩, fun h => h.2.resolve_left (Nat.not_lt.mpr hmac)⟩
        rw [← hrest]
        split
        · rename_i hcredit
          exact reads_section2_iff _ (received_append.mpr
            ⟨hboth, received_singleton.mpr (by omega)⟩) rfl
        · exact reads_section2_iff _ hboth rfl

/-- `sprdwl_get_fw_info` takes and reads only what was received and processes the elements if and only
if the response is empty, or has a first section and then either no elements that are looked at or
elements among which the loop stops. A response that is elements up to its end is never one: the
length of one more is read. -/
theorem getFwInfo_iff (compatVer : ℕ) (priv : Priv) (payload : List Byte) :
    Reads (received payload) (rLenOf payload) compatVer
        (getFwInfo compatVer priv payload) ↔
      rLenOf payload = 0 ∨ Clean (received payload) (rLenOf payload) compatVer := by
  have hinfo : FW_INFO_LEN = 88 := rfl
  have hsize : GET_INFO_TLV_RBUF_SIZE = 300 := rfl
  have hle : rLenOf payload ≤ 388 := by
    rw [rLenOf]
    omega
  rw [getFwInfo]
  split
  · rename_i hzero
    refine ⟨fun _ => .inl hzero, fun _ => ?_⟩
    exact reads_of_short (fun s hs => (by cases hs)) rfl (by omega)
  · rename_i hpos
    rw [reads_parse_iff compatVer priv (by omega)]
    exact ⟨.inr, fun h => h.resolve_left hpos⟩

/-- What `sprdwl_priv` has before. -/
def Priv.zero : Priv := ⟨0, 0, 0, 0, 0, 0, 0, 0, 0, 0, false, [], [], 0, 0⟩

/-- A response of one byte: the second section is taken from behind it. -/
theorem short_response_taken :
    ¬ Reads (received [0]) (rLenOf [0]) 2 (getFwInfo 2 Priv.zero [0]) := by
  have hone : rLenOf [0] = 1 := rfl
  rw [getFwInfo, if_neg (by decide), reads_parse_iff 2 Priv.zero (by decide), Clean, hone]
  exact fun h => absurd h.1 (by decide)

end Uwe5631.FwInfo
