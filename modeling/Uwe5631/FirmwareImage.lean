import Mathlib.Data.List.Range
import Mathlib.Algebra.Order.Ring.Int
import Uwe5631.FallibleRuns

/-!
# Firmware containers

A firmware image is a pack of images, one for each chip version (`WCNM`), or of images that all go
to the chip (`WCNE`), or it is written as it is. The headers are read from a buffer, and the images
are written in packets.
-/
namespace Uwe5631.Firmware

open Uwe5631.FallibleRuns

abbrev Byte := BitVec 8

abbrev PACKET_SIZE : ℕ := 32 * 1024

abbrev CP_START_ADDR : BitVec 32 := 0x40500000

/-- `sizeof(struct head)` -/
abbrev HEAD_SIZE : ℕ := 12

/-- `sizeof(struct imageinfo)` and `sizeof(struct combin_img_info)` -/
abbrev INFO_SIZE : ℕ := 12

/-- `IMG_HEAD_MAGIC` -/
abbrev WCNM : List Byte := [0x57, 0x43, 0x4e, 0x4d]

/-- `IMG_HEAD_MAGIC_COMBINE` -/
abbrev WCNE : List Byte := [0x57, 0x43, 0x4e, 0x45]

inductive ChipModel where
  | marlin3
  | marlin3l
  | marlin3e
  | other
  deriving DecidableEq, Repr

inductive ChipId where
  | aa
  | ab
  | ac
  | ad
  | other
  deriving DecidableEq, Repr

structure Config where
  /-- `CONFIG_CHECK_DRIVER_BY_CHIPID` -/
  checkDriverByChipid : Bool
  model : ChipModel
  chipId : ChipId
  deriving DecidableEq, Repr

inductive Fault where
  | outOfBounds
  | useAfterFree
  | badFree
  deriving DecidableEq, Repr

/-! ## Headers -/

/-- The letters by which a chip id ends its tag. -/
def ChipId.letters : ChipId → List Byte
  | .aa => [0x41, 0x41]
  | .ab => [0x41, 0x42]
  | .ac => [0x41, 0x43]
  | .ad => [0x41, 0x44]
  | .other => []

/-- The letters by which a tag begins: `ML` or those of the chip. -/
def Config.letters (cfg : Config) : List Byte :=
  if cfg.checkDriverByChipid then
    match cfg.model with
    | .marlin3 => [0x33, 0x30]
    | .marlin3l => [0x33, 0x4c]
    | .marlin3e => [0x33, 0x45]
    | .other => []
  else [0x4d, 0x4c]

/-- The tags `marlin_judge_images` looks for, in their order. -/
def Config.tags (cfg : Config) : List (List Byte) :=
  let ids : List ChipId :=
    match cfg.checkDriverByChipid, cfg.model, cfg.chipId with
    | false, .marlin3, .aa => [.aa]
    | false, .marlin3, .ab => [.ab]
    | false, .marlin3, .ac | false, .marlin3, .ad => [.ac, .ad]
    | false, .marlin3l, .aa => [.aa]
    | false, .marlin3l, .ab => [.ab]
    | false, .marlin3e, .aa | false, .marlin3e, .ab => [.aa, .ab]
    | true, .marlin3, .aa => [.aa]
    | true, .marlin3, .ab => [.ab]
    | true, .marlin3, .ac | true, .marlin3, .ad => [.ac, .ad]
    | true, .marlin3l, .aa => [.aa]
    | true, .marlin3l, .ab => [.ab]
    | true, .marlin3l, .ac => [.ac]
    | true, .marlin3l, .ad => [.ad]
    | true, .marlin3e, .aa | true, .marlin3e, .ab => [.aa, .ab]
    | true, .marlin3e, .ac => [.ac]
    | true, .marlin3e, .ad => [.ad]
    | _, _, _ => []
  ids.map (cfg.letters ++ ·.letters)

def readByte (buf : List Byte) (pos : ℕ) : Except Fault Byte :=
  match buf[pos]? with
  | some b => .ok b
  | none => .error .outOfBounds

/-- The little-endian word at a position. -/
def word (buf : List Byte) (pos : ℕ) : BitVec 32 :=
  buf.getD (pos + 3) 0 ++ buf.getD (pos + 2) 0 ++ buf.getD (pos + 1) 0 ++ buf.getD pos 0

/-- The position may be before the buffer. -/
def readWord (buf : List Byte) (pos : ℤ) : Except Fault (BitVec 32) :=
  if 0 ≤ pos ∧ pos + 4 ≤ buf.length then .ok (word buf pos.toNat) else .error .outOfBounds

/-- `!strncmp` reads up to the first byte that differs. -/
def strncmp (buf : List Byte) (pos : ℕ) : List Byte → Except Fault Bool
  | [] => .ok true
  | c :: cs => (readByte buf pos).bind fun b =>
      if b = c then strncmp buf (pos + 1) cs else .ok false

def infoPos (data i : ℕ) : ℕ := data + HEAD_SIZE + INFO_SIZE * i

/-- The loop of `marlin_imageinfo_get_from_data`. -/
def getFromDataLoop (buf : List Byte) (data : ℕ) (tag : List Byte) :
    ℕ → ℕ → Except Fault (Option ℕ)
  | 0, _ => .ok none
  | n + 1, i => (strncmp buf (infoPos data i) tag).bind fun found =>
      if found then .ok (some i) else getFromDataLoop buf data tag n (i + 1)

def marlinImageinfoGetFromData (buf : List Byte) (data : ℕ) (tag : List Byte) :
    Except Fault (Option ℕ) :=
  (readWord buf (data + 8)).bind fun count =>
    getFromDataLoop buf data tag count.toInt.toNat 0

def marlinJudgeImages (buf : List Byte) (data : ℕ) : List (List Byte) → Except Fault (Option ℕ)
  | [] => .ok none
  | tag :: tags => (marlinImageinfoGetFromData buf data tag).bind fun found =>
      match found with
      | some i => .ok (some i)
      | none => marlinJudgeImages buf data tags

/-- What `marlin_firmware_parse_image` finds. -/
inductive Pack where
  | noImage
  | image (offset size : BitVec 32)
  | combined (size : BitVec 32)
  | raw
  deriving DecidableEq, Repr

def parsePack (cfg : Config) (buf : List Byte) (data : ℕ) : Except Fault Pack :=
  (strncmp buf data WCNM).bind fun isPack =>
    if isPack then
      (marlinJudgeImages buf data cfg.tags).bind fun found =>
        match found with
        | none => .ok .noImage
        | some i =>
          (readWord buf (infoPos data i + 8)).bind fun size =>
            (readWord buf (infoPos data i + 4)).bind fun offset => .ok (.image offset size)
    else (strncmp buf data WCNE).bind fun isCombined =>
      if isCombined then
        (readWord buf (data + 8)).bind fun count =>
          let last : ℤ := data + HEAD_SIZE + INFO_SIZE * (count - 1).toInt
          (readWord buf (last + 8)).bind fun size =>
            (readWord buf (last + 4)).bind fun offset => .ok (.combined (size + offset))
      else .ok .raw

/-! ## Writing -/

/-- The bytes the chip has got, with their addresses, and how the next writes turn out. -/
structure Bus where
  answers : List ℤ
  written : List (BitVec 32 × Byte)
  deriving DecidableEq, Repr

def place (addr : BitVec 32) : List Byte → List (BitVec 32 × Byte)
  | [] => []
  | b :: bs => (addr, b) :: place (addr + 1) bs

/-- `sprdwcn_bus_direct_write` -/
def directWrite (bus : Bus) (addr : BitVec 32) (bytes : List Byte) : Bus × ℤ :=
  let ret := bus.answers.headD 0
  (⟨bus.answers.tail, if ret < 0 then bus.written else bus.written ++ place addr bytes⟩, ret)

def readBytes (buf : List Byte) (pos len : ℕ) : Except Fault (List Byte) :=
  if pos + len ≤ buf.length then .ok ((buf.drop pos).take len) else .error .outOfBounds

/-- The loop of `sprdwcn_bus_direct_write_dispack`, by the packets that are left. -/
def dispackLoop (buf : List Byte) (addr : BitVec 32) (pos bufSize : ℕ) :
    ℕ → ℕ → Bus → ℤ → Except Fault (Bus × ℤ)
  | 0, _, bus, ret => .ok (bus, ret)
  | n + 1, offset, bus, _ =>
    let tempSize := min PACKET_SIZE (bufSize - offset)
    (readBytes buf (pos + offset) tempSize).bind fun bytes =>
      let (bus, ret) := directWrite bus (addr + BitVec.ofNat 32 offset) bytes
      if ret < 0 then .ok (bus, ret)
      else dispackLoop buf addr pos bufSize n (offset + tempSize) bus ret

def packets (bufSize : ℕ) : ℕ := (bufSize + (PACKET_SIZE - 1)) / PACKET_SIZE

def sprdwcnBusDirectWriteDispack (bus : Bus) (buf : List Byte) (addr : BitVec 32)
    (pos bufSize : ℕ) : Except Fault (Bus × ℤ) :=
  dispackLoop buf addr pos bufSize (packets bufSize) 0 bus 0

/-- The loop of `marlin_firmware_write` over the images of a pack. -/
def writeLoop (buf : List Byte) (data : ℕ) (size : BitVec 64) :
    ℕ → ℕ → Bus → Except Fault (Bus × ℤ)
  | 0, _, bus => .ok (bus, 0)
  | n + 1, i, bus =>
    (readWord buf (infoPos data i + 8)).bind fun imgSize =>
      (readWord buf (infoPos data i + 4)).bind fun offset =>
        if size.toNat < (imgSize + offset).toNat then .ok (bus, -1)
        else (readWord buf (infoPos data i)).bind fun addr =>
          (sprdwcnBusDirectWriteDispack bus buf addr (data + offset.toNat) imgSize.toNat).bind
            fun (bus, err) =>
              if err ≠ 0 then .ok (bus, -1) else writeLoop buf data size n (i + 1) bus

def marlinFirmwareWrite (buf : List Byte) (data : ℕ) (size : BitVec 64) (bus : Bus) :
    Except Fault (Bus × ℤ) :=
  (strncmp buf data WCNE).bind fun isCombined =>
    if isCombined then
      (readWord buf (data + 8)).bind fun count =>
        writeLoop buf data size count.toInt.toNat 0 bus
    else
      (sprdwcnBusDirectWriteDispack bus buf CP_START_ADDR data size.toNat).bind fun (bus, err) =>
        .ok (bus, if err ≠ 0 then -1 else 0)

/-! ## The images of a container -/

/-- An image with its target address and its place in the container. -/
structure Image where
  addr : BitVec 32
  offset : ℕ
  size : ℕ
  deriving DecidableEq, Repr

def Image.bytes (c : List Byte) (im : Image) : List (BitVec 32 × Byte) :=
  place im.addr ((c.drop im.offset).take im.size)

def Image.Inside (c : List Byte) (im : Image) : Prop := im.size ≤ c.length - im.offset

def imgCount (c : List Byte) (start : ℕ) : ℕ := (word c (start + 8)).toNat

def combinedImage (c : List Byte) (start i : ℕ) : Image :=
  ⟨word c (infoPos start i), start + (word c (infoPos start i + 4)).toNat,
    (word c (infoPos start i + 8)).toNat⟩

/-- The images from `start` on, where a combined pack may begin. -/
def imagesAt (c : List Byte) (start size : ℕ) : List Image :=
  if WCNE <+: c.drop start then (List.range (imgCount c start)).map (combinedImage c start)
  else [⟨CP_START_ADDR, start, size⟩]

/-- The entry of the first tag that has one. -/
def selectedInfo (cfg : Config) (c : List Byte) : Option ℕ :=
  cfg.tags.findSome? fun tag =>
    (List.range (imgCount c 0)).find? fun i => tag <+: c.drop (infoPos 0 i)

/-- The images of the container that are for this chip. -/
def selected (cfg : Config) (c : List Byte) : List Image :=
  if WCNM <+: c then
    match selectedInfo cfg c with
    | none => []
    | some i => imagesAt c (word c (infoPos 0 i + 4)).toNat (word c (infoPos 0 i + 8)).toNat
  else imagesAt c 0 c.length

/-- The bytes have gone to the chip, each image at its address. -/
def Written (c : List Byte) (images : List Image) (bytes : List (BitVec 32 × Byte)) : Prop :=
  bytes = images.flatMap (·.bytes c) ∧ ∀ im ∈ images, im.Inside c

/-! ## What writing comes to -/

/-- The return value of a write in packets. -/
def dispackAnswer : ℕ → List ℤ → ℤ → ℤ
  | 0, _, ret => ret
  | n + 1, answers, _ =>
    if answers.headD 0 < 0 then answers.headD 0
    else dispackAnswer n answers.tail (answers.headD 0)

/-- Up to where the bytes are copied: writing ends behind the packet that fails. -/
def copied (bufSize : ℕ) : ℕ → ℕ → List ℤ → ℕ
  | 0, offset, _ => offset
  | n + 1, offset, answers =>
    let next := offset + min PACKET_SIZE (bufSize - offset)
    if answers.headD 0 < 0 then next else copied bufSize n next answers.tail

/-- What is copied of an image is in the bytes that are known. -/
def DispackFits (known : List Byte) (pos bufSize : ℕ) (answers : List ℤ) : Prop :=
  copied bufSize (packets bufSize) 0 answers ≤ known.length - pos

/-- The same for the entries that writing comes to. -/
def EntriesFit (known : List Byte) (data : ℕ) (size : BitVec 64) : ℕ → ℕ → List ℤ → Prop
  | 0, _, _ => True
  | n + 1, i, answers =>
    let offset := word known (infoPos data i + 4)
    let imgSize := word known (infoPos data i + 8)
    infoPos data i + INFO_SIZE ≤ known.length ∧
      ((imgSize + offset).toNat ≤ size.toNat →
        DispackFits known (data + offset.toNat) imgSize.toNat answers ∧
          (dispackAnswer (packets imgSize.toNat) answers 0 = 0 →
            EntriesFit known data size n (i + 1) (answers.drop (packets imgSize.toNat))))

/-- Headers and images of what is written from `data` on are in the bytes that are known. In the
container it is what begins at `start`. A count that is negative to the code must be one of empty
images, and an image that is written as it is has the given length, unless the bus fails. -/
def WriteFits (known : List Byte) (data : ℕ) (size : BitVec 64) (answers : List ℤ)
    (c : List Byte) (start whole : ℕ) : Prop :=
  match strncmp known data WCNE with
  | .error _ => False
  | .ok true => data + HEAD_SIZE ≤ known.length ∧
      if (word known (data + 8)).msb then ∀ im ∈ imagesAt c start whole, im.size = 0
      else EntriesFit known data size (imgCount known data) 0 answers
  | .ok false => DispackFits known data size.toNat answers ∧
      (dispackAnswer (packets size.toNat) answers 0 = 0 → size.toNat = whole)

/-! ## Buffers with the same beginning -/

/-- `y` returns what `x` returns. -/
def Agrees {α : Type*} (x y : Except Fault α) : Prop := ∀ a, x = .ok a → y = .ok a

theorem Agrees.refl {α : Type*} (x : Except Fault α) : Agrees x x := fun _ h => h

theorem Agrees.bind {α β : Type*} {x y : Except Fault α} {f g : α → Except Fault β}
    (h : Agrees x y) (hfg : ∀ a, Agrees (f a) (g a)) : Agrees (x.bind f) (y.bind g) := by
  intro b hb
  obtain ⟨a, ha, hfa⟩ := bind_eq_ok.mp hb
  rw [h a ha, ok_bind]
  exact hfg a b hfa

variable {known buf c : List Byte} {data start : ℕ}

theorem getElem?_of_prefix (h : known <+: buf) {i : ℕ} {b : Byte} (hb : known[i]? = some b) :
    buf[i]? = some b := by
  obtain ⟨hlt, rfl⟩ := List.getElem?_eq_some_iff.mp hb
  exact List.prefix_iff_getElem?.mp h i hlt

theorem drop_of_prefix (h : known <+: buf) (k : ℕ) : known.drop k <+: buf.drop k := by
  rw [List.prefix_iff_getElem?]
  intro i hi
  rw [List.getElem?_drop, List.getElem_drop]
  exact List.prefix_iff_getElem?.mp h _ _

theorem readByte_agrees (h : known <+: buf) (pos : ℕ) :
    Agrees (readByte known pos) (readByte buf pos) := by
  intro b hb
  rw [readByte] at hb
  split at hb
  case h_1 x hx =>
    cases hb
    rw [readByte, getElem?_of_prefix h hx]
  case h_2 => cases hb

theorem word_eq (h : known <+: buf) {pos : ℕ} (hpos : pos + 4 ≤ known.length) :
    word known pos = word buf pos := by
  have hsame (k : ℕ) (hk : k < 4) : known.getD (pos + k) 0 = buf.getD (pos + k) 0 := by
    have hlt : pos + k < known.length := by omega
    rw [List.getD_eq_getElem?_getD, List.getD_eq_getElem?_getD, List.getElem?_eq_getElem hlt,
      getElem?_of_prefix h (List.getElem?_eq_getElem hlt)]
  rw [word, word, hsame 3 (by decide), hsame 2 (by decide), hsame 1 (by decide)]
  have h0 := hsame 0 (by decide)
  rw [Nat.add_zero] at h0
  rw [h0]

theorem readWord_agrees (h : known <+: buf) (pos : ℤ) :
    Agrees (readWord known pos) (readWord buf pos) := by
  intro w hw
  have hlen := h.length_le
  rw [readWord] at hw
  split at hw
  case isTrue hin =>
    cases hw
    have hbuf : pos + 4 ≤ buf.length := by omega
    rw [readWord, if_pos ⟨hin.1, hbuf⟩, word_eq h (by omega)]
  case isFalse => cases hw

theorem strncmp_agrees (h : known <+: buf) (pos : ℕ) (tag : List Byte) :
    Agrees (strncmp known pos tag) (strncmp buf pos tag) := by
  induction tag generalizing pos with
  | nil => exact Agrees.refl _
  | cons x tag ih =>
    refine (readByte_agrees h pos).bind fun b => ?_
    split
    · exact ih (pos + 1)
    · exact Agrees.refl _

theorem getFromDataLoop_agrees (h : known <+: buf) (tag : List Byte) (n i : ℕ) :
    Agrees (getFromDataLoop known data tag n i) (getFromDataLoop buf data tag n i) := by
  induction n generalizing i with
  | zero => exact Agrees.refl _
  | succ n ih =>
    refine (strncmp_agrees h _ tag).bind fun found => ?_
    split
    · exact Agrees.refl _
    · exact ih (i + 1)

theorem marlinJudgeImages_agrees (h : known <+: buf) (tags : List (List Byte)) :
    Agrees (marlinJudgeImages known data tags) (marlinJudgeImages buf data tags) := by
  induction tags with
  | nil => exact Agrees.refl _
  | cons tag tags ih =>
    have hget : Agrees (marlinImageinfoGetFromData known data tag)
        (marlinImageinfoGetFromData buf data tag) :=
      (readWord_agrees h _).bind fun count => getFromDataLoop_agrees h tag _ 0
    refine hget.bind fun found => ?_
    cases found with
    | some i => exact Agrees.refl _
    | none => exact ih

theorem parsePack_agrees (cfg : Config) (h : known <+: buf) :
    Agrees (parsePack cfg known data) (parsePack cfg buf data) := by
  refine (strncmp_agrees h data WCNM).bind fun isPack => ?_
  cases isPack with
  | true =>
    refine (marlinJudgeImages_agrees h cfg.tags).bind fun found => ?_
    cases found with
    | none => exact Agrees.refl _
    | some i =>
      exact (readWord_agrees h _).bind fun size => (readWord_agrees h _).bind fun _ => Agrees.refl _
  | false =>
    refine (strncmp_agrees h data WCNE).bind fun isCombined => ?_
    cases isCombined with
    | true =>
      exact (readWord_agrees h _).bind fun count =>
        (readWord_agrees h _).bind fun size => (readWord_agrees h _).bind fun _ => Agrees.refl _
    | false => exact Agrees.refl _

/-! ## Bytes of the container -/

/-- What is known from `data` on is what the container has from `start` on. -/
def View (known : List Byte) (data : ℕ) (c : List Byte) (start : ℕ) : Prop :=
  known.drop data <+: c.drop start

theorem View.shift (h : View known data c start) (k : ℕ) :
    View known (data + k) c (start + k) := by
  have hdrop := drop_of_prefix h k
  rwa [List.drop_drop, List.drop_drop] at hdrop

theorem View.word_eq (h : View known data c start) (hin : data + 4 ≤ known.length) :
    word known data = word c start := by
  have hdrop (l : List Byte) (k : ℕ) : word (l.drop k) 0 = word l k := by
    simp [word, List.getD_eq_getElem?_getD, List.getElem?_drop]
  have hlen : 0 + 4 ≤ (known.drop data).length := by
    rw [List.length_drop]
    omega
  rw [← hdrop known data, ← hdrop c start]
  exact Firmware.word_eq h hlen

theorem View.take (h : View known data c start) {n : ℕ} (hn : n ≤ known.length - data) :
    (known.drop data).take n = (c.drop start).take n ∧ n ≤ c.length - start := by
  obtain ⟨rest, hrest⟩ := h
  have hlen : n ≤ (known.drop data).length := by
    rw [List.length_drop]
    exact hn
  constructor
  · rw [← hrest, List.take_append_of_le_length hlen]
  · rw [← List.length_drop, ← hrest, List.length_append]
    omega

theorem View.strncmp_iff (h : View known data c start) {tag : List Byte} {b : Bool}
    (hb : strncmp known data tag = .ok b) : b = true ↔ tag <+: c.drop start := by
  induction tag generalizing data start with
  | nil =>
    cases hb
    simp
  | cons x tag ih =>
    obtain ⟨y, hy, hrest⟩ := bind_eq_ok.mp hb
    rw [readByte] at hy
    split at hy
    case h_2 => cases hy
    case h_1 z hz =>
      obtain rfl := Except.ok.inj hy
      have hknown : known.drop data = z :: known.drop (data + 1) := by
        obtain ⟨hlt, rfl⟩ := List.getElem?_eq_some_iff.mp hz
        exact List.drop_eq_getElem_cons hlt
      have hc : c.drop start = z :: c.drop (start + 1) := by
        obtain ⟨rest, hrest⟩ := h
        rw [hknown] at hrest
        have hlt : start < c.length := by
          by_contra hge
          rw [List.drop_eq_nil_of_le (not_lt.mp hge)] at hrest
          cases hrest
        rw [List.drop_eq_getElem_cons hlt] at hrest ⊢
        rw [(List.cons.inj hrest).1]
      rw [hc, List.cons_prefix_cons]
      split at hrest
      case isTrue heq =>
        rw [ih (h.shift 1) hrest, heq]
        simp
      case isFalse hne =>
        cases hrest
        constructor
        · intro hfalse
          cases hfalse
        · intro hpre
          exact absurd hpre.1.symm hne

/-! ## Writing the images -/

theorem place_append (addr : BitVec 32) (as bs : List Byte) :
    place addr (as ++ bs) = place addr as ++ place (addr + BitVec.ofNat 32 as.length) bs := by
  induction as generalizing addr with
  | nil => simp [place]
  | cons a as ih =>
    have haddr : addr + 1 + BitVec.ofNat 32 as.length = addr + BitVec.ofNat 32 (as.length + 1) := by
      rw [BitVec.ofNat_add, BitVec.add_assoc, BitVec.add_comm 1]
      rfl
    rw [List.cons_append, place, place, ih, haddr, List.length_cons, List.cons_append]

theorem le_copied (bufSize n offset : ℕ) (answers : List ℤ) :
    offset ≤ copied bufSize n offset answers := by
  induction n generalizing offset answers with
  | zero => exact le_refl _
  | succ n ih =>
    rw [copied]
    split
    · exact Nat.le_add_right _ _
    · exact (Nat.le_add_right _ _).trans (ih _ _)

theorem packets_spec (bufSize : ℕ) :
    bufSize ≤ packets bufSize * PACKET_SIZE ∧
      packets bufSize * PACKET_SIZE < bufSize + PACKET_SIZE := by
  simp only [packets, PACKET_SIZE]
  omega

/-- What is left, a packet at a time. -/
theorem min_add_one_mul (n size left : ℕ) :
    min ((n + 1) * size) left = min size left + min (n * size) (left - min size left) := by
  rw [Nat.add_one_mul]
  generalize n * size = rest
  omega

theorem readBytes_agrees (h : known <+: buf) (pos len : ℕ) (hin : pos + len ≤ known.length) :
    readBytes buf pos len = .ok ((known.drop pos).take len) := by
  have hview : View known pos buf pos := drop_of_prefix h pos
  have htake := (hview.take (n := len) (by omega)).1
  rw [readBytes, if_pos (hin.trans h.length_le), htake]

variable {addr : BitVec 32} {pos bufSize : ℕ} {bus : Bus}

theorem directWrite_fails (hfail : bus.answers.headD 0 < 0) (bytes : List Byte) :
    directWrite bus addr bytes = (⟨bus.answers.tail, bus.written⟩, bus.answers.headD 0) := by
  rw [directWrite, if_pos hfail]

theorem directWrite_succeeds (hgood : ¬ bus.answers.headD 0 < 0) (bytes : List Byte) :
    directWrite bus addr bytes =
      (⟨bus.answers.tail, bus.written ++ place addr bytes⟩, bus.answers.headD 0) := by
  rw [directWrite, if_neg hgood]

variable (addr) in
/-- What the loop copies is known, and if no write fails the chip gets it. -/
theorem dispackLoop_spec (h : known <+: buf) {n offset : ℕ} {ret : ℤ} (hret : 0 ≤ ret)
    (hn : offset + n * PACKET_SIZE < bufSize + PACKET_SIZE)
    (hfits : copied bufSize n offset bus.answers ≤ known.length - pos) :
    ∃ bus', dispackLoop buf addr pos bufSize n offset bus ret =
        .ok (bus', dispackAnswer n bus.answers ret) ∧
      (0 ≤ dispackAnswer n bus.answers ret →
        bus'.answers = bus.answers.drop n ∧
        copied bufSize n offset bus.answers = offset + min (n * PACKET_SIZE) (bufSize - offset) ∧
        bus'.written = bus.written ++ place (addr + BitVec.ofNat 32 offset)
          ((known.drop (pos + offset)).take (min (n * PACKET_SIZE) (bufSize - offset)))) := by
  induction n generalizing offset bus ret with
  | zero => exact ⟨bus, rfl, fun _ => ⟨rfl, by simp [copied], by simp [place]⟩⟩
  | succ n ih =>
    -- the packet at hand is not empty
    have hpacket : 0 < PACKET_SIZE := by decide
    have hlt : offset + n * PACKET_SIZE < bufSize := by
      rw [Nat.add_one_mul, ← Nat.add_assoc] at hn
      exact Nat.lt_of_add_lt_add_right hn
    obtain ⟨temp, htemp⟩ : ∃ temp, temp = min PACKET_SIZE (bufSize - offset) := ⟨_, rfl⟩
    have hpos : 0 < temp := by omega
    have hnext : offset + temp ≤ known.length - pos := by
      rw [copied, ← htemp] at hfits
      split at hfits
      · exact hfits
      · exact (le_copied _ _ _ _).trans hfits
    have hroom : temp ≤ known.length - (pos + offset) := by omega
    have hread := readBytes_agrees h (pos + offset) temp (by omega)
    rw [dispackLoop, ← htemp, hread, ok_bind, dispackAnswer]
    by_cases hfail : bus.answers.headD 0 < 0
    · refine ⟨⟨bus.answers.tail, bus.written⟩, ?_, fun hans => ?_⟩
      · rw [directWrite_fails hfail]
        simp only [if_pos hfail]
      · rw [if_pos hfail] at hans
        omega
    · rw [if_neg hfail, directWrite_succeeds hfail]
      have hstep : offset + temp + n * PACKET_SIZE < bufSize + PACKET_SIZE := by
        rw [Nat.add_one_mul] at hn
        omega
      rw [copied, ← htemp, if_neg hfail] at hfits
      obtain ⟨bus', hloop, hgood⟩ := @ih ⟨bus.answers.tail, bus.written ++
        place (addr + BitVec.ofNat 32 offset) ((known.drop (pos + offset)).take temp)⟩
        _ _ (not_lt.mp hfail) hstep hfits
      refine ⟨bus', ?_, fun hans => ?_⟩
      · simp only [if_neg hfail]
        exact hloop
      · obtain ⟨hanswers, hcopied, hwritten⟩ := hgood hans
        -- the rest begins behind this packet
        have hsplit : min ((n + 1) * PACKET_SIZE) (bufSize - offset) =
            temp + min (n * PACKET_SIZE) (bufSize - (offset + temp)) := by
          rw [htemp, ← Nat.sub_sub]
          exact min_add_one_mul n PACKET_SIZE (bufSize - offset)
        have hlen : ((known.drop (pos + offset)).take temp).length = temp := by
          rw [List.length_take, List.length_drop]
          exact Nat.min_eq_left hroom
        refine ⟨?_, ?_, ?_⟩
        · rw [hanswers, List.drop_tail]
        · rw [copied, ← htemp, if_neg hfail, hsplit]
          exact hcopied.trans (Nat.add_assoc _ _ _)
        · have haddr : addr + BitVec.ofNat 32 (offset + temp) =
              addr + BitVec.ofNat 32 offset + BitVec.ofNat 32 temp := by
            rw [BitVec.ofNat_add, BitVec.add_assoc]
          rw [hwritten, hsplit, List.take_add, place_append, hlen, List.drop_drop, haddr,
            List.append_assoc, Nat.add_assoc]

variable (addr) in
theorem dispack_spec (h : known <+: buf) (hfits : DispackFits known pos bufSize bus.answers) :
    ∃ bus', sprdwcnBusDirectWriteDispack bus buf addr pos bufSize =
        .ok (bus', dispackAnswer (packets bufSize) bus.answers 0) ∧
      (dispackAnswer (packets bufSize) bus.answers 0 = 0 →
        bus'.answers = bus.answers.drop (packets bufSize) ∧
        bufSize ≤ known.length - pos ∧
        bus'.written = bus.written ++ place addr ((known.drop pos).take bufSize)) := by
  obtain ⟨hle, hlt⟩ := packets_spec bufSize
  obtain ⟨bus', hloop, hgood⟩ := dispackLoop_spec addr h (le_refl 0)
    (by rw [Nat.zero_add]; exact hlt) hfits
  refine ⟨bus', hloop, fun hzero => ?_⟩
  obtain ⟨hanswers, hcopied, hwritten⟩ := hgood (by omega)
  have hmin : min (packets bufSize * PACKET_SIZE) (bufSize - 0) = bufSize := by omega
  rw [DispackFits, hcopied, hmin, Nat.zero_add] at hfits
  rw [hmin] at hwritten
  exact ⟨hanswers, hfits, by simpa using hwritten⟩

variable (addr) in
/-- An image of which all that is copied is known is written as the container has it. -/
theorem dispack_written (h : known <+: buf) (hview : View known pos c start)
    (hfits : DispackFits known pos bufSize bus.answers) :
    ∃ bus', sprdwcnBusDirectWriteDispack bus buf addr pos bufSize =
        .ok (bus', dispackAnswer (packets bufSize) bus.answers 0) ∧
      (dispackAnswer (packets bufSize) bus.answers 0 = 0 →
        bus'.answers = bus.answers.drop (packets bufSize) ∧
        (⟨addr, start, bufSize⟩ : Image).Inside c ∧
        bus'.written = bus.written ++ (⟨addr, start, bufSize⟩ : Image).bytes c) := by
  obtain ⟨bus', hrun, hgood⟩ := dispack_spec addr h hfits
  refine ⟨bus', hrun, fun hzero => ?_⟩
  obtain ⟨hanswers, hin, hwritten⟩ := hgood hzero
  obtain ⟨htake, hinside⟩ := hview.take hin
  exact ⟨hanswers, hinside, by rw [hwritten, htake]; rfl⟩

theorem readWord_ok (pos : ℕ) (hin : pos + 4 ≤ known.length) :
    readWord known pos = .ok (word known pos) := by
  rw [readWord, if_pos ⟨Int.natCast_nonneg pos, by omega⟩, Int.toNat_natCast]

theorem View.info (h : View known data c start) {i k : ℕ}
    (hin : infoPos data i + k + 4 ≤ known.length) :
    word known (infoPos data i + k) = word c (infoPos start i + k) := by
  have hshift := h.shift (HEAD_SIZE + INFO_SIZE * i + k)
  rw [← add_assoc, ← add_assoc, ← add_assoc, ← add_assoc] at hshift
  exact hshift.word_eq hin

theorem writeLoop_spec (h : known <+: buf) (hview : View known data c start) {size : BitVec 64}
    {n i : ℕ} (hfits : EntriesFit known data size n i bus.answers) :
    ∃ bus' ret, writeLoop buf data size n i bus = .ok (bus', ret) ∧
      (ret = 0 → ∃ bytes, bus'.written = bus.written ++ bytes ∧
        Written c ((List.range' i n).map (combinedImage c start)) bytes) := by
  induction n generalizing i bus with
  | zero => exact ⟨bus, 0, rfl, fun _ => ⟨[], by simp, rfl, by simp⟩⟩
  | succ n ih =>
    obtain ⟨hin, hrest⟩ := hfits
    rw [show INFO_SIZE = 12 from rfl] at hin
    have hsize := readWord_agrees h _ _ (readWord_ok (infoPos data i + 8) (by omega))
    have hoffset := readWord_agrees h _ _ (readWord_ok (infoPos data i + 4) (by omega))
    have haddr := readWord_agrees h _ _ (readWord_ok (infoPos data i) (by omega))
    push_cast at hsize hoffset
    rw [writeLoop, hsize, ok_bind, hoffset, ok_bind]
    by_cases hcross : size.toNat < (word known (infoPos data i + 8) +
        word known (infoPos data i + 4)).toNat
    · rw [if_pos hcross]
      exact ⟨bus, -1, rfl, fun hret => by cases hret⟩
    · rw [if_neg hcross, haddr, ok_bind]
      obtain ⟨hone, hmore⟩ := hrest (not_lt.mp hcross)
      obtain ⟨bus₁, hrun, hgood⟩ := dispack_written (word known (infoPos data i)) h
        (hview.shift _) hone
      rw [hrun, ok_bind]
      by_cases herr : dispackAnswer (packets (word known (infoPos data i + 8)).toNat)
          bus.answers 0 = 0
      · obtain ⟨hanswers, hinside, hwritten⟩ := hgood herr
        obtain ⟨bus', ret, hloop, hlast⟩ := @ih bus₁ _ (by rw [hanswers]; exact hmore herr)
        refine ⟨bus', ret, ?_, fun hret => ?_⟩
        · simp only [herr, ne_eq, not_true_eq_false, if_false]
          exact hloop
        · obtain ⟨bytes, hbytes, hrange, hall⟩ := hlast hret
          -- the entry is the same in the container
          have hentry : (⟨word known (infoPos data i),
              start + (word known (infoPos data i + 4)).toNat,
              (word known (infoPos data i + 8)).toNat⟩ : Image) = combinedImage c start i := by
            have h0 := hview.info (i := i) (k := 0) (by omega)
            rw [combinedImage, ← hview.info (by omega), ← hview.info (by omega)]
            rw [add_zero, add_zero] at h0
            rw [h0]
          rw [hentry] at hinside hwritten
          refine ⟨(combinedImage c start i).bytes c ++ bytes, ?_, ?_, ?_⟩
          · rw [hbytes, hwritten, List.append_assoc]
          · rw [hrange, List.range'_succ, List.map_cons, List.flatMap_cons]
          · intro im him
            rw [List.range'_succ, List.map_cons] at him
            rcases List.mem_cons.mp him with rfl | him
            · exact hinside
            · exact hall im him
      · refine ⟨bus₁, -1, ?_, fun hret => by cases hret⟩
        simp only [ne_eq, herr, not_false_eq_true, if_true]

theorem toNat_of_msb_false {w : BitVec 32} (h : w.msb = false) : w.toInt.toNat = w.toNat := by
  simp [BitVec.toInt_eq_msb_cond, h]

theorem toNat_of_msb_true {w : BitVec 32} (h : w.msb = true) : w.toInt.toNat = 0 := by
  have hneg := BitVec.toInt_neg_of_msb_true h
  omega

variable (bus) in
theorem marlinFirmwareWrite_spec (h : known <+: buf) (hview : View known data c start)
    {size : BitVec 64} {whole : ℕ}
    (hfits : WriteFits known data size bus.answers c start whole) :
    ∃ bus' ret, marlinFirmwareWrite buf data size bus = .ok (bus', ret) ∧
      (ret = 0 → ∃ bytes, bus'.written = bus.written ++ bytes ∧
        Written c (imagesAt c start whole) bytes) := by
  rw [WriteFits] at hfits
  split at hfits
  case h_1 => exact hfits.elim
  case h_2 hmagic =>
    obtain ⟨hhead, hentries⟩ := hfits
    rw [show HEAD_SIZE = 12 from rfl] at hhead
    have hread := readWord_agrees h _ _ (readWord_ok (data + 8) (by omega))
    push_cast at hread
    have hstart := (hview.strncmp_iff hmagic).mp rfl
    rw [marlinFirmwareWrite, strncmp_agrees h _ _ _ hmagic, ok_bind, if_pos rfl, hread, ok_bind]
    cases hmsb : (word known (data + 8)).msb with
    | true =>
      -- the loop is not entered
      rw [hmsb, if_pos rfl] at hentries
      rw [toNat_of_msb_true hmsb]
      refine ⟨bus, 0, rfl, fun _ => ⟨[], (List.append_nil _).symm, ?_, ?_⟩⟩
      · symm
        rw [List.flatMap_eq_nil_iff]
        intro im him
        rw [Image.bytes, hentries im him, List.take_zero]
        rfl
      · intro im him
        rw [Image.Inside, hentries im him]
        exact Nat.zero_le _
    | false =>
      rw [hmsb, if_neg Bool.false_ne_true] at hentries
      have himg : imgCount known data = imgCount c start := by
        rw [imgCount, imgCount, (hview.shift 8).word_eq (by omega)]
      rw [himg] at hentries
      obtain ⟨bus', ret, hloop, hgood⟩ := writeLoop_spec h hview hentries
      refine ⟨bus', ret, ?_, fun hret => ?_⟩
      · rw [toNat_of_msb_false hmsb, ← hloop, ← himg, imgCount]
      · rw [imagesAt, if_pos hstart, List.range_eq_range']
        exact hgood hret
  case h_3 hmagic =>
    obtain ⟨hbytes, hlength⟩ := hfits
    have hstart : ¬ WCNE <+: c.drop start := fun hpre => by
      cases (hview.strncmp_iff hmagic).mpr hpre
    obtain ⟨bus', hrun, hgood⟩ := dispack_written CP_START_ADDR h hview hbytes
    refine ⟨bus', if dispackAnswer (packets size.toNat) bus.answers 0 ≠ 0 then -1 else 0, ?_,
      fun hret => ?_⟩
    · rw [marlinFirmwareWrite, strncmp_agrees h _ _ _ hmagic, ok_bind,
        if_neg Bool.false_ne_true, hrun, ok_bind]
    · have hzero : dispackAnswer (packets size.toNat) bus.answers 0 = 0 := by
        by_contra hne
        rw [if_pos hne] at hret
        cases hret
      obtain ⟨-, hinside, hwritten⟩ := hgood hzero
      rw [hlength hzero] at hinside hwritten
      rw [imagesAt, if_neg hstart]
      exact ⟨_, hwritten, by simp, by simpa using hinside⟩

/-! ## What follows from a load without a fault -/

theorem length_place (addr : BitVec 32) (bs : List Byte) : (place addr bs).length = bs.length := by
  induction bs generalizing addr with
  | nil => rfl
  | cons b bs ih => rw [place, List.length_cons, List.length_cons, ih]

theorem readWord_eq_ok (pos : ℕ) {w : BitVec 32} (hw : readWord known pos = .ok w) :
    pos + 4 ≤ known.length ∧ word known pos = w := by
  rw [readWord] at hw
  split at hw
  case isTrue hin =>
    rw [Int.toNat_natCast] at hw
    exact ⟨by omega, Except.ok.inj hw⟩
  case isFalse => cases hw

theorem copied_of_ok {n offset : ℕ} {ret : ℤ} {r : Bus × ℤ}
    (hoffset : offset ≤ known.length - pos)
    (hr : dispackLoop known addr pos bufSize n offset bus ret = .ok r) :
    copied bufSize n offset bus.answers ≤ known.length - pos := by
  induction n generalizing offset bus ret with
  | zero => exact hoffset
  | succ n ih =>
    obtain ⟨bytes, hread, hrest⟩ := bind_eq_ok.mp hr
    have hin : offset + min PACKET_SIZE (bufSize - offset) ≤ known.length - pos := by
      rw [readBytes] at hread
      split at hread
      case isTrue hle => omega
      case isFalse => cases hread
    rw [copied]
    by_cases hfail : bus.answers.headD 0 < 0
    · rw [if_pos hfail]
      exact hin
    · rw [directWrite_succeeds hfail] at hrest
      simp only [if_neg hfail] at hrest
      rw [if_neg hfail]
      exact ih hin hrest

theorem dispackFits_of_ok {r : Bus × ℤ}
    (hr : sprdwcnBusDirectWriteDispack bus known addr pos bufSize = .ok r) :
    DispackFits known pos bufSize bus.answers :=
  copied_of_ok (Nat.zero_le _) hr

theorem entriesFit_of_ok {size : BitVec 64} {n i : ℕ} {r : Bus × ℤ}
    (hr : writeLoop known data size n i bus = .ok r) :
    EntriesFit known data size n i bus.answers := by
  induction n generalizing i bus with
  | zero => trivial
  | succ n ih =>
    obtain ⟨imgSize, hsize, hr⟩ := bind_eq_ok.mp hr
    obtain ⟨offset, hoffset, hr⟩ := bind_eq_ok.mp hr
    obtain ⟨hin, rfl⟩ := readWord_eq_ok (infoPos data i + 8) (by push_cast; exact hsize)
    obtain ⟨-, rfl⟩ := readWord_eq_ok (infoPos data i + 4) (by push_cast; exact hoffset)
    refine ⟨hin, fun hle => ?_⟩
    rw [if_neg (not_lt.mpr hle)] at hr
    obtain ⟨addr, -, hr⟩ := bind_eq_ok.mp hr
    obtain ⟨⟨bus₁, err⟩, hrun, hr⟩ := bind_eq_ok.mp hr
    have hfits := dispackFits_of_ok hrun
    refine ⟨hfits, fun hzero => ?_⟩
    -- the answers are those that are left
    obtain ⟨bus', hspec, hgood⟩ := dispack_spec addr (List.prefix_refl known) hfits
    obtain ⟨rfl, rfl⟩ := Prod.mk.inj (Except.ok.inj (hspec.symm.trans hrun))
    rw [← (hgood hzero).1]
    simp only [hzero, ne_eq, not_true_eq_false, if_false] at hr
    exact ih hr

theorem empty_of_written_nil {images : List Image} (h : Written c images []) :
    ∀ im ∈ images, im.size = 0 := by
  intro im him
  have hbytes := List.flatMap_eq_nil_iff.mp h.1.symm im him
  have hlen := congrArg List.length hbytes
  have hinside := h.2 im him
  rw [Image.bytes, length_place, List.length_take, List.length_drop, List.length_nil] at hlen
  rw [Image.Inside] at hinside
  omega

/-- Where the buffer is what is known, writing that does not fault meets the condition. -/
theorem writeFits_of_ok (hview : View known data c start) {size : BitVec 64} {whole : ℕ}
    {ret : ℤ} {bus' : Bus} (hbus : bus.written = [])
    (hr : marlinFirmwareWrite known data size bus = .ok (bus', ret))
    (hwritten : ret = 0 → Written c (imagesAt c start whole) bus'.written) :
    WriteFits known data size bus.answers c start whole := by
  obtain ⟨isCombined, hmagic, hr⟩ := bind_eq_ok.mp hr
  rw [WriteFits, hmagic]
  cases isCombined with
  | true =>
    obtain ⟨count, hcount, hr⟩ := bind_eq_ok.mp hr
    obtain ⟨hin, rfl⟩ := readWord_eq_ok (data + 8) (by push_cast; exact hcount)
    refine ⟨hin, ?_⟩
    cases hmsb : (word known (data + 8)).msb with
    | true =>
      rw [toNat_of_msb_true hmsb] at hr
      obtain ⟨rfl, rfl⟩ := Prod.mk.inj (Except.ok.inj hr)
      have hnil := hwritten rfl
      rw [hbus] at hnil
      rw [if_pos rfl]
      exact empty_of_written_nil hnil
    | false =>
      rw [toNat_of_msb_false hmsb] at hr
      rw [if_neg Bool.false_ne_true]
      exact entriesFit_of_ok hr
  | false =>
    obtain ⟨⟨bus₁, err⟩, hrun, hr⟩ := bind_eq_ok.mp hr
    have hfits := dispackFits_of_ok hrun
    refine ⟨hfits, fun hzero => ?_⟩
    obtain ⟨bus₂, hspec, hgood⟩ :=
      dispack_spec CP_START_ADDR (List.prefix_refl known) hfits
    obtain ⟨rfl, rfl⟩ := Prod.mk.inj (Except.ok.inj (hspec.symm.trans hrun))
    obtain ⟨rfl, rfl⟩ := Prod.mk.inj (Except.ok.inj hr)
    obtain ⟨-, hin, hbytes⟩ := hgood hzero
    have himages := hwritten (by rw [hzero]; rfl)
    have hstart : ¬ WCNE <+: c.drop start := fun hpre => by
      cases (hview.strncmp_iff hmagic).mpr hpre
    rw [imagesAt, if_neg hstart, hbus, List.nil_append] at *
    -- both are as long as what the chip got
    have hlen := congrArg List.length himages.1
    have hinside : whole ≤ c.length - start := himages.2 _ (List.mem_singleton.mpr rfl)
    rw [hbytes, List.flatMap_singleton, Image.bytes, length_place, length_place, List.length_take,
      List.length_take, List.length_drop, List.length_drop] at hlen
    dsimp only at hlen
    omega

/-! ## The pack that is found -/

theorem View.entry (h : View known data c start) (i : ℕ) :
    View known (infoPos data i) c (infoPos start i) := by
  have hshift := h.shift (HEAD_SIZE + INFO_SIZE * i)
  rwa [← add_assoc, ← add_assoc] at hshift

theorem getFromDataLoop_spec (h : View known data c start) {tag : List Byte} {n i : ℕ}
    {r : Option ℕ} (hr : getFromDataLoop known data tag n i = .ok r) :
    (List.range' i n).find? (fun j => tag <+: c.drop (infoPos start j)) = r := by
  induction n generalizing i with
  | zero =>
    cases hr
    rfl
  | succ n ih =>
    obtain ⟨found, hfound, hrest⟩ := bind_eq_ok.mp hr
    have hiff := (h.entry i).strncmp_iff hfound
    rw [List.range'_succ]
    cases found with
    | true =>
      cases hrest
      rw [List.find?_cons_of_pos (by simpa using hiff.mp rfl)]
    | false =>
      have hnot : ¬ tag <+: c.drop (infoPos start i) := fun hpre => by cases hiff.mpr hpre
      rw [List.find?_cons_of_neg (by simpa using hnot)]
      exact ih hrest

/-- An entry is found only where the count, as the code takes it, is not negative. -/
theorem judge_count {tags : List (List Byte)} {i : ℕ}
    (hi : marlinJudgeImages known data tags = .ok (some i)) :
    (word known (data + 8)).toInt.toNat = imgCount known data := by
  induction tags with
  | nil => cases hi
  | cons tag tags ih =>
    obtain ⟨found, hfound, hrest⟩ := bind_eq_ok.mp hi
    cases found with
    | none => exact ih hrest
    | some j =>
      obtain ⟨count, hcount, hloop⟩ := bind_eq_ok.mp hfound
      obtain ⟨-, rfl⟩ := readWord_eq_ok (data + 8) (by push_cast; exact hcount)
      rw [imgCount]
      cases hmsb : (word known (data + 8)).msb with
      | false => exact toNat_of_msb_false hmsb
      | true =>
        rw [toNat_of_msb_true hmsb] at hloop
        cases hloop

theorem judge_spec (h : View known data c 0) {tags : List (List Byte)} {i : ℕ}
    (hi : marlinJudgeImages known data tags = .ok (some i)) :
    (tags.findSome? fun tag =>
      (List.range (imgCount c 0)).find? fun i => tag <+: c.drop (infoPos 0 i)) = some i := by
  have hnat := judge_count hi
  induction tags with
  | nil => cases hi
  | cons tag tags ih =>
    obtain ⟨found, hfound, hrest⟩ := bind_eq_ok.mp hi
    obtain ⟨count, hcount, hloop⟩ := bind_eq_ok.mp hfound
    obtain ⟨hin, rfl⟩ := readWord_eq_ok (data + 8) (by push_cast; exact hcount)
    have hsame : imgCount known data = imgCount c 0 := by
      rw [imgCount, imgCount, (h.shift 8).word_eq hin]
    rw [hnat, hsame] at hloop
    have hfind := getFromDataLoop_spec h hloop
    rw [← List.range_eq_range'] at hfind
    rw [List.findSome?_cons, hfind]
    cases found with
    | some j =>
      cases hrest
      rfl
    | none => exact ih hrest

/-- What a pack says about the images of the container. -/
def Pack.Tells (cfg : Config) (c : List Byte) : Pack → Prop
  | .noImage => True
  | .image offset size => selected cfg c = imagesAt c offset.toNat size.toNat
  | .combined _ | .raw => selected cfg c = imagesAt c 0 c.length

theorem parsePack_spec {cfg : Config} (h : View known data c 0) {pack : Pack}
    (hpack : parsePack cfg known data = .ok pack) : pack.Tells cfg c := by
  obtain ⟨isPack, hmagic, hrest⟩ := bind_eq_ok.mp hpack
  have hiff := h.strncmp_iff hmagic
  rw [List.drop_zero] at hiff
  cases isPack with
  | true =>
    obtain ⟨found, hfound, hrest⟩ := bind_eq_ok.mp hrest
    cases found with
    | none =>
      cases hrest
      trivial
    | some i =>
      obtain ⟨size, hsize, hrest⟩ := bind_eq_ok.mp hrest
      obtain ⟨offset, hoffset, hrest⟩ := bind_eq_ok.mp hrest
      cases hrest
      obtain ⟨hin, rfl⟩ := readWord_eq_ok (infoPos data i + 8) (by push_cast; exact hsize)
      obtain ⟨-, rfl⟩ := readWord_eq_ok (infoPos data i + 4) (by push_cast; exact hoffset)
      rw [Pack.Tells, selected, if_pos (hiff.mp rfl), selectedInfo, judge_spec h hfound,
        h.info hin, h.info (by omega)]
  | false =>
    have hnot : ¬ WCNM <+: c := fun hpre => by cases hiff.mpr hpre
    have hwhole : selected cfg c = imagesAt c 0 c.length := by
      rw [selected, if_neg hnot]
    obtain ⟨isCombined, -, hrest⟩ := bind_eq_ok.mp hrest
    cases isCombined with
    | true =>
      obtain ⟨count, -, hrest⟩ := bind_eq_ok.mp hrest
      obtain ⟨size, -, hrest⟩ := bind_eq_ok.mp hrest
      obtain ⟨offset, -, hrest⟩ := bind_eq_ok.mp hrest
      cases hrest
      exact hwhole
    | false =>
      cases hrest
      exact hwhole

end Uwe5631.Firmware
