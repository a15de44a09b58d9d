import Uwe5631.FirmwareImage

/-!
# Loading the firmware

`btwifi_download_firmware` takes the firmware from one of four sources, looks for the images of the
chip, reads an image again that ends beyond the buffer, writes the images and gives the buffers
back.
-/
namespace Uwe5631.Firmware

open Uwe5631.FallibleRuns

abbrev WCN_FW_MAX_PATH_NUM : ℕ := 5

abbrev ENOMEM : ℤ := 12

/-- `FIRMWARE_MAX_SIZE` of the UWE5622 and of the other chips. -/
def firmwareMaxSize (uwe5622 : Bool) : ℕ := if uwe5622 then 0xe7400 else 0xf0c00

inductive Source where
  /-- `firmware_hex_buf` -/
  | hex (image : List Byte)
  /-- the first power-on; the copy for later ones may fail to be allocated -/
  | request (firmware : Option (List Byte)) (backedUp : Bool)
  /-- the copy -/
  | backup (image : List Byte)
  | file
  deriving DecidableEq, Repr

/-- How reading the file goes: each `kernel_read` returns at most so many bytes, and the rest of the
buffer has what was in the memory. -/
structure Reading where
  opened : Bool
  allocated : Bool
  reads : List ℕ
  stale : ℕ → Byte

structure Env where
  source : Source
  uwe5622 : Bool
  kmalloc : Bool
  /-- the file at `BTWF_FIRMWARE_PATH` -/
  file : List Byte
  /-- how many of the paths are tried without success -/
  missed : ℕ
  firstRead : Reading
  secondRead : Reading
  answers : List ℤ

/-- The buffer that is requested and the one that is read again. -/
inductive Buffer where
  | first
  | second
  deriving DecidableEq, Repr

structure Ptr where
  buf : Buffer
  off : ℕ
  deriving DecidableEq, Repr

structure MarlinFirmware where
  data : Ptr
  size : BitVec 64
  isFromFs : Bool
  /-- for the copy it is the record of the device, which is none of the buffers -/
  priv : Option Ptr
  isFromHex : Bool
  deriving DecidableEq, Repr

structure State where
  first : Option (List Byte)
  second : Option (List Byte)
  /-- the `struct marlin_firmware` is allocated -/
  mfirmware : Bool
  /-- the copy in `marlin_dev->firmware` -/
  copy : Option (List Byte)
  functionmask : List Byte
  bus : Bus
  deriving DecidableEq, Repr

def State.content (s : State) (b : Buffer) : Except Fault (List Byte) :=
  match (match b with | .first => s.first | .second => s.second) with
  | some buf => .ok buf
  | none => .error .useAfterFree

/-- `vfree` takes the pointer that `vmalloc` returned. -/
def vfree (env : Env) (s : State) (p : Option Ptr) : Except Fault State :=
  match p with
  | some ⟨.first, 0⟩ =>
    if env.source = .file ∧ s.first ≠ none then .ok { s with first := none } else .error .badFree
  | some ⟨.second, 0⟩ =>
    if s.second ≠ none then .ok { s with second := none } else .error .badFree
  | _ => .error .badFree

/-- The loop of `load_firmware_data_path`; what is read in the end. -/
def readLoop (file : List Byte) : List ℕ → ℤ → ℕ → List Byte
  | [], _, _ => []
  | limit :: limits, offset, size =>
    let got := if offset < 0 then [] else (file.drop offset.toNat).take (min limit size)
    if 0 < got.length ∧ got.length < size then
      got ++ readLoop file limits (offset + got.length) (size - got.length)
    else got

/-- `load_firmware_data_path`, since kernel 4.14; `vmalloc` of a size that is not positive fails. -/
def loadFirmwareDataPath (file : List Byte) (r : Reading) (offset size : ℤ) :
    Option (List Byte) :=
  if r.opened ∧ r.allocated ∧ 0 < size then
    let got := readLoop file r.reads offset size.toNat
    some ((List.range size.toNat).map fun i => got.getD i (r.stale i))
  else none

/-- The function mask in front of the firmware. -/
def takeFunctionmask (s : State) (mf : MarlinFirmware) :
    Except Fault (State × Option MarlinFirmware × ℤ) :=
  (s.content mf.data.buf).bind fun buf =>
    (readBytes buf mf.data.off 8).bind fun mask =>
      if mask.getD 0 0 = 0 ∧ mask.getD 1 0 = 0 then
        .ok ({ s with functionmask := mask },
          some { mf with data := ⟨mf.data.buf, mf.data.off + 8⟩, size := mf.size - 8 }, 0)
      else .ok ({ s with functionmask := mask.set 7 0 }, some mf, 0)

def marlinRequestFirmware (env : Env) (s : State) :
    Except Fault (State × Option MarlinFirmware × ℤ) :=
  if !env.kmalloc then .ok (s, none, -ENOMEM)
  else
    let s := { s with mfirmware := true }
    match env.source with
    | .hex image =>
      takeFunctionmask { s with first := some image }
        ⟨⟨.first, 0⟩, BitVec.ofNat 64 image.length, false, some ⟨.first, 0⟩, true⟩
    | .request none _ => .ok (s, none, -2)
    | .request (some firmware) false =>
      .ok ({ s with first := some firmware }, none, -1)
    | .request (some firmware) true =>
      takeFunctionmask { s with first := some firmware, copy := some firmware }
        ⟨⟨.first, 0⟩, BitVec.ofNat 64 firmware.length, true, some ⟨.first, 0⟩, false⟩
    | .backup image =>
      takeFunctionmask { s with first := some image }
        ⟨⟨.first, 0⟩, BitVec.ofNat 64 image.length, false, none, true⟩
    | .file =>
      let size := firmwareMaxSize env.uwe5622
      match (if env.missed < WCN_FW_MAX_PATH_NUM then
        loadFirmwareDataPath env.file env.firstRead 0 size else none) with
      | none => .ok ({ s with mfirmware := false }, none, -1)
      | some buffer =>
        takeFunctionmask { s with first := some buffer }
          ⟨⟨.first, 0⟩, BitVec.ofNat 64 size, false, some ⟨.first, 0⟩, false⟩

/-- The offset in the container and the size that `marlin_firmware_parse_image` compares. -/
def Pack.offset : Pack → BitVec 32
  | .image offset _ => offset
  | _ => 0

def Pack.size : Pack → BitVec 32
  | .image _ size | .combined size => size
  | _ => 0

/-- What becomes of `mfirmware->size`. -/
def Pack.fwSize (old : BitVec 64) : Pack → BitVec 64
  | .image _ size => size.setWidth 64
  | .combined size => size.signExtend 64
  | _ => old

def MarlinFirmware.rereads (mf : MarlinFirmware) (pack : Pack) : Bool :=
  !mf.isFromFs && (mf.size.setWidth 32).toInt < (pack.offset + pack.size).toInt

def marlinFirmwareParseImage (cfg : Config) (env : Env) (s : State) (mf : MarlinFirmware) :
    Except Fault (State × MarlinFirmware × ℤ) :=
  (s.content mf.data.buf).bind fun buf =>
    (parsePack cfg buf mf.data.off).bind fun pack =>
      if pack = .noImage then .ok (s, mf, -1)
      else
        let mf' := { mf with
          data := ⟨mf.data.buf, mf.data.off + pack.offset.toNat⟩
          size := pack.fwSize mf.size }
        if mf.rereads pack then
          match loadFirmwareDataPath env.file env.secondRead pack.offset.toInt pack.size.toInt with
          | none => .ok (s, mf', -1)
          | some buffer => (vfree env { s with second := some buffer } mf'.priv).map fun s =>
              (s, { mf' with data := ⟨.second, 0⟩, priv := some ⟨.second, 0⟩ }, 0)
        else .ok (s, mf', 0)

def marlinReleaseFirmware (env : Env) (s : State) (mf : MarlinFirmware) : Except Fault State :=
  (if mf.isFromFs then .ok { s with first := none }
    else if mf.isFromHex then .ok s
    else vfree env s (some mf.data)).map fun s => { s with mfirmware := false }

/-- The part of `btwifi_download_firmware` that has a firmware. -/
def download (cfg : Config) (env : Env) (s : State) (mf : MarlinFirmware) :
    Except Fault (State × ℤ) :=
  (marlinFirmwareParseImage cfg env s mf).bind fun (s, mf, ret) =>
    if ret ≠ 0 then (marlinReleaseFirmware env s mf).map (·, ret)
    else (s.content mf.data.buf).bind fun buf =>
      (marlinFirmwareWrite buf mf.data.off mf.size s.bus).bind fun (bus, ret) =>
        (marlinReleaseFirmware env { s with bus := bus } mf).map (·, ret)

def init (env : Env) : State := ⟨none, none, false, none, [], ⟨env.answers, []⟩⟩

def btwifiDownloadFirmware (cfg : Config) (env : Env) : Except Fault (State × ℤ) :=
  (marlinRequestFirmware env (init env)).bind fun (s, mf, ret) =>
    match mf with
    | none => .ok (s, ret)
    | some mf => download cfg env s mf

/-! ## What is claimed -/

def Env.image (env : Env) : List Byte :=
  match env.source with
  | .hex image | .backup image => image
  | .request firmware _ => firmware.getD []
  | .file => env.file

/-- How long the function mask is. -/
def maskLength (image : List Byte) : ℕ := if [0, 0] <+: image then 8 else 0

def Env.container (env : Env) : List Byte := env.image.drop (maskLength env.image)

def Source.isRequest : Source → Bool
  | .request _ _ => true
  | _ => false

/-- The load allocates its first buffer. -/
def Source.allocates : Source → Bool
  | .request _ _ | .file => true
  | .hex _ | .backup _ => false

structure Loaded (cfg : Config) (env : Env) (s : State) (ret : ℤ) : Prop where
  written : ret = 0 → Written env.container (selected cfg env.container) s.bus.written
  first : env.source.allocates = true → s.first = none
  second : s.second = none
  mfirmware : s.mfirmware = false

def Loads (cfg : Config) (env : Env) : Prop :=
  ∃ s ret, btwifiDownloadFirmware cfg env = .ok (s, ret) ∧ Loaded cfg env s ret

/-- What the first buffer has of the firmware. -/
def Env.known (env : Env) : Option (List Byte) :=
  match env.source with
  | .hex image | .backup image => some image
  | .request firmware _ => firmware
  | .file =>
    if env.missed < WCN_FW_MAX_PATH_NUM ∧ env.firstRead.opened ∧ env.firstRead.allocated then
      some (readLoop env.file env.firstRead.reads 0 (firmwareMaxSize env.uwe5622))
    else none

/-- `mfirmware->size` after the request. -/
def Env.size (env : Env) : BitVec 64 :=
  match env.source with
  | .file => BitVec.ofNat 64 (firmwareMaxSize env.uwe5622)
  | _ => BitVec.ofNat 64 env.image.length - BitVec.ofNat 64 (maskLength env.image)

/-- `request_firmware` and the copy do not fail. -/
def Env.Granted (env : Env) : Prop :=
  match env.source with
  | .request none _ | .request _ false => False
  | _ => True

/-- The image ends, as the code computes it, beyond the first buffer. -/
def Env.beyond (env : Env) (pack : Pack) : Bool :=
  !env.source.isRequest && (env.size.setWidth 32).toInt < (pack.offset + pack.size).toInt

/-- The length of what is written as it is. -/
def Pack.whole (c : List Byte) : Pack → ℕ
  | .image _ size => size.toNat
  | _ => c.length

/-- The images of the pack are in the buffer they are written from, and that buffer is freed by the
pointer it was allocated with. -/
def PackFits (env : Env) (known : List Byte) (pack : Pack) : Prop :=
  if env.beyond pack then
    match loadFirmwareDataPath env.file env.secondRead pack.offset.toInt pack.size.toInt with
    | none => env.source = .file → pack.offset = 0
    | some _ => env.source = .file ∧
        WriteFits (readLoop env.file env.secondRead.reads pack.offset.toInt pack.size.toInt.toNat) 0
          (pack.fwSize env.size) env.answers env.container pack.offset.toNat
          (pack.whole env.container)
  else (env.source = .file → pack.offset = 0) ∧
    WriteFits known (maskLength known + pack.offset.toNat) (pack.fwSize env.size) env.answers
      env.container pack.offset.toNat (pack.whole env.container)

/-- The function mask is in the buffer, and there is none in a file. -/
def MaskFits (env : Env) (known : List Byte) : Prop :=
  if env.source = .file then 2 ≤ known.length ∧ maskLength known = 0 else 8 ≤ known.length

def Fits (cfg : Config) (env : Env) : Prop :=
  env.kmalloc = true → env.Granted ∧ ∀ known, env.known = some known →
    MaskFits env known ∧ ∃ pack, parsePack cfg known (maskLength known) = .ok pack ∧
      (pack ≠ .noImage → PackFits env known pack)

/-! ## Reading the file -/

theorem readLoop_begins (file : List Byte) (limits : List ℕ) (offset : ℤ) (size : ℕ) :
    readLoop file limits offset size <+: file.drop offset.toNat ∧
      (readLoop file limits offset size).length ≤ size := by
  induction limits generalizing offset size with
  | nil => exact ⟨List.nil_prefix, Nat.zero_le _⟩
  | cons limit limits ih =>
    rw [readLoop]
    by_cases hneg : offset < 0
    · simp [hneg]
    · simp only [if_neg hneg]
      obtain ⟨got, hgot⟩ : ∃ got, got = (file.drop offset.toNat).take (min limit size) := ⟨_, rfl⟩
      have hpre : got <+: file.drop offset.toNat := by
        rw [hgot]
        exact List.take_prefix _ _
      have hlen : got.length ≤ size := by
        rw [hgot, List.length_take]
        omega
      rw [← hgot]
      split
      case isTrue hmore =>
        obtain ⟨hrest, hlength⟩ := ih (offset + got.length) (size - got.length)
        have hoff : (offset + got.length).toNat = offset.toNat + got.length := by omega
        rw [hoff, ← List.drop_drop] at hrest
        have hsplit : got ++ (file.drop offset.toNat).drop got.length = file.drop offset.toNat := by
          obtain ⟨rest, hfile⟩ := hpre
          rw [← hfile, List.drop_left]
        refine ⟨?_, by rw [List.length_append]; omega⟩
        rw [← hsplit]
        exact (List.prefix_append_right_inj got).mpr hrest
      case isFalse => exact ⟨hpre, hlen⟩

theorem readLoop_view (file : List Byte) (limits : List ℕ) (offset : BitVec 32) (size : ℕ) :
    View (readLoop file limits offset.toInt size) 0 file offset.toNat := by
  rw [View, List.drop_zero]
  by_cases hneg : offset.toInt < 0
  · -- nothing is read in front of the file
    have hnil : readLoop file limits offset.toInt size = [] := by
      cases limits with
      | nil => rfl
      | cons limit limits => simp [readLoop, hneg]
    rw [hnil]
    exact List.nil_prefix
  · have hoffset : offset.toInt.toNat = offset.toNat := by
      have hlt := offset.isLt
      rw [BitVec.toInt_eq_toNat_cond] at hneg ⊢
      split at hneg <;> omega
    rw [← hoffset]
    exact (readLoop_begins file limits offset.toInt size).1

theorem loadFirmwareDataPath_begins {file : List Byte} {r : Reading} {offset size : ℤ}
    {buf : List Byte} (h : loadFirmwareDataPath file r offset size = some buf) :
    readLoop file r.reads offset size.toNat <+: buf := by
  have hlen := (readLoop_begins file r.reads offset size.toNat).2
  rw [loadFirmwareDataPath] at h
  split at h
  case isTrue =>
    have hbuf := Option.some.inj h
    rw [List.prefix_iff_getElem?]
    intro i hi
    rw [← hbuf, List.getElem?_map, List.getElem?_range (by omega), Option.map_some,
      List.getD_eq_getElem?_getD, List.getElem?_eq_getElem hi, Option.getD_some]
  case isFalse => cases h

theorem loadFirmwareDataPath_length {file : List Byte} {r : Reading} {offset size : ℤ}
    {buf : List Byte} (h : loadFirmwareDataPath file r offset size = some buf) :
    buf.length = size.toNat := by
  rw [loadFirmwareDataPath] at h
  split at h
  case isTrue => rw [← Option.some.inj h, List.length_map, List.length_range]
  case isFalse => cases h

/-! ## The load -/

variable {cfg : Config} {env : Env} {s : State} {mf : MarlinFirmware} {known : List Byte}

/-- What the request leaves. -/
structure Requested (env : Env) (s : State) (mf : MarlinFirmware) (known : List Byte) : Prop where
  first : ∃ buf, s.first = some buf ∧ known <+: buf
  second : s.second = none
  bus : s.bus = ⟨env.answers, []⟩
  data : mf.data = ⟨.first, maskLength known⟩
  size : mf.size = env.size
  fs : mf.isFromFs = env.source.isRequest
  hex : mf.isFromHex = !env.source.allocates
  priv : mf.priv = none ∨ mf.priv = some ⟨.first, 0⟩
  filePriv : env.source = .file → mf.priv = some ⟨.first, 0⟩
  view : View known (maskLength known) env.container 0
  file : env.source = .file → maskLength known = 0 ∧ env.container = env.file

theorem Requested.rereads_eq (h : Requested env s mf known) (pack : Pack) :
    mf.rereads pack = env.beyond pack := by
  rw [MarlinFirmware.rereads, Env.beyond, h.size, h.fs]

/-- Giving back is right if the pointer into the buffer of a file is its first one. -/
theorem Requested.release (h : Requested env s mf known) (t : State) (mf' : MarlinFirmware)
    (hsame : mf'.isFromFs = mf.isFromFs ∧ mf'.isFromHex = mf.isFromHex)
    (hfirst : t.first = s.first) (hsecond : t.second = none)
    (hdata : env.source = .file → mf'.data = ⟨.first, 0⟩) :
    ∃ u, marlinReleaseFirmware env t mf' = .ok u ∧ u.bus = t.bus ∧
      (env.source.allocates = true → u.first = none) ∧ u.second = none ∧ u.mfirmware = false := by
  rw [marlinReleaseFirmware, hsame.1, hsame.2, h.fs, h.hex]
  obtain ⟨buf, hbuf, -⟩ := h.first
  cases hsource : env.source with
  | hex image => exact ⟨_, rfl, rfl, fun hall => (Bool.false_ne_true hall).elim, hsecond, rfl⟩
  | backup image => exact ⟨_, rfl, rfl, fun hall => (Bool.false_ne_true hall).elim, hsecond, rfl⟩
  | request firmware backedUp => exact ⟨_, rfl, rfl, fun _ => rfl, hsecond, rfl⟩
  | file =>
    have hlive : t.first ≠ none := by
      rw [hfirst, hbuf]
      exact Option.some_ne_none buf
    have hfree : vfree env t (some ⟨.first, 0⟩) = .ok { t with first := none } := by
      rw [vfree, if_pos ⟨hsource, hlive⟩]
    rw [hdata hsource]
    refine ⟨{ t with first := none, mfirmware := false }, ?_, rfl, fun _ => rfl, hsecond, rfl⟩
    simp only [Source.isRequest, Source.allocates, Bool.false_eq_true, if_false, Bool.not_true,
      hfree, ok_map]

theorem Pack.Tells.selected_eq {pack : Pack} {c : List Byte} (h : pack.Tells cfg c)
    (hne : pack ≠ .noImage) : selected cfg c = imagesAt c pack.offset.toNat (pack.whole c) := by
  cases pack with
  | noImage => exact absurd rfl hne
  | image offset size => exact h
  | combined size => exact h
  | raw => exact h

/-- What is left to do after the images are written. -/
theorem Requested.finish (h : Requested env s mf known) (t : State) (mf' : MarlinFirmware)
    {buf c' : List Byte} {data start whole : ℕ}
    (hcontent : t.content mf'.data.buf = .ok buf) (hdata : mf'.data.off = data)
    (hpre : c' <+: buf) (hview : View c' data env.container start)
    (hfits : WriteFits c' data mf'.size env.answers env.container start whole)
    (hbus : t.bus = s.bus)
    (hselected : selected cfg env.container = imagesAt env.container start whole)
    (hrelease : ∀ bus, ∃ u, marlinReleaseFirmware env { t with bus := bus } mf' = .ok u ∧
      u.bus = bus ∧ (env.source.allocates = true → u.first = none) ∧ u.second = none ∧
      u.mfirmware = false) :
    ∃ u ret, ((t.content mf'.data.buf).bind fun buf =>
        (marlinFirmwareWrite buf mf'.data.off mf'.size t.bus).bind fun (bus, ret) =>
          (marlinReleaseFirmware env { t with bus := bus } mf').map (·, ret)) = .ok (u, ret) ∧
      Loaded cfg env u ret := by
  have hanswers : t.bus = ⟨env.answers, []⟩ := hbus.trans h.bus
  obtain ⟨bus, ret, hrun, hgood⟩ := marlinFirmwareWrite_spec t.bus hpre hview
    (by rw [hanswers]; exact hfits)
  obtain ⟨u, hfree, hu, hfirst, hsecond, hmf⟩ := hrelease bus
  refine ⟨u, ret, ?_, fun hret => ?_, hfirst, hsecond, hmf⟩
  · rw [hcontent, ok_bind, hdata, hrun, ok_bind]
    simp only [hfree, ok_map]
  · obtain ⟨bytes, hbytes, hwritten⟩ := hgood hret
    rw [hanswers, List.nil_append] at hbytes
    rw [hu, hbytes, hselected]
    exact hwritten

theorem download_spec (h : Requested env s mf known) {pack : Pack}
    (hpack : parsePack cfg known (maskLength known) = .ok pack)
    (hfits : pack ≠ .noImage → PackFits env known pack) :
    ∃ t ret, download cfg env s mf = .ok (t, ret) ∧ Loaded cfg env t ret := by
  obtain ⟨buf, hbuf, hpre⟩ := h.first
  have hcontent : s.content mf.data.buf = .ok buf := by
    rw [h.data]
    simp only [State.content, hbuf]
  have hparse : parsePack cfg buf mf.data.off = .ok pack := by
    rw [h.data]
    exact parsePack_agrees cfg hpre pack hpack
  rw [download, marlinFirmwareParseImage, hcontent, ok_bind, hparse, ok_bind]
  by_cases hno : pack = .noImage
  · -- no image for the chip
    obtain ⟨u, hrelease, -, hfirst, hsecond, hmf⟩ := h.release s mf ⟨rfl, rfl⟩ rfl
      h.second (fun hfile => by rw [h.data, (h.file hfile).1])
    refine ⟨u, -1, ?_, fun hret => ?_, hfirst, hsecond, hmf⟩
    · rw [if_pos hno, ok_bind]
      simp only [hrelease]
      rfl
    · cases hret
  · have hselected := (parsePack_spec h.view hpack).selected_eq hno
    have hfit := hfits hno
    rw [if_neg hno, h.rereads_eq]
    rw [PackFits] at hfit
    by_cases hbeyond : env.beyond pack = true
    · rw [if_pos hbeyond] at hfit
      simp only [hbeyond, if_true]
      cases hload : loadFirmwareDataPath env.file env.secondRead pack.offset.toInt
          pack.size.toInt with
      | none =>
        -- the image cannot be read again
        rw [hload] at hfit
        obtain ⟨u, hrelease, -, hfirst, hsecond, hmf⟩ := h.release s
          { mf with
            data := ⟨mf.data.buf, mf.data.off + pack.offset.toNat⟩
            size := pack.fwSize mf.size } ⟨rfl, rfl⟩ rfl h.second
          (fun hfile => by simp [h.data, (h.file hfile).1, hfit hfile])
        refine ⟨u, -1, ?_, fun hret => ?_, hfirst, hsecond, hmf⟩
        · simp only [ok_bind]
          rw [hrelease]
          rfl
        · cases hret
      | some buffer =>
        rw [hload] at hfit
        obtain ⟨hfile, hwrite⟩ := hfit
        have hfree : vfree env { s with second := some buffer } mf.priv =
            .ok { s with first := none, second := some buffer } := by
          rw [h.filePriv hfile]
          simp only [vfree, hfile, hbuf, ne_eq, reduceCtorEq, not_false_eq_true, and_self, if_true]
        -- the image is at the beginning of the second buffer
        have hagain : View (readLoop env.file env.secondRead.reads pack.offset.toInt
            pack.size.toInt.toNat) 0 env.container pack.offset.toNat := by
          rw [(h.file hfile).2]
          exact readLoop_view _ _ _ _
        simp only [hfree, ok_map, ok_bind]
        refine h.finish { s with first := none, second := some buffer }
          { mf with
            data := ⟨.second, 0⟩
            size := pack.fwSize mf.size
            priv := some ⟨.second, 0⟩ }
          rfl rfl (loadFirmwareDataPath_begins hload) hagain ?_ rfl hselected ?_
        · rw [h.size]
          exact hwrite
        · intro bus
          refine ⟨{ s with first := none, second := none, mfirmware := false, bus := bus }, ?_, rfl,
            fun _ => rfl, rfl, rfl⟩
          simp [marlinReleaseFirmware, h.fs, h.hex, hfile, Source.isRequest, Source.allocates,
            vfree]
    · rw [if_neg hbeyond] at hfit
      obtain ⟨hoff, hwrite⟩ := hfit
      have hview := h.view.shift pack.offset.toNat
      rw [Nat.zero_add] at hview
      simp only [hbeyond]
      refine h.finish _ _ hcontent (by rw [h.data]) hpre hview ?_ rfl hselected ?_
      · rw [h.size]
        exact hwrite
      · intro bus
        exact h.release _ _ ⟨rfl, rfl⟩ rfl h.second
          (fun hfile => by simp [h.data, (h.file hfile).1, hoff hfile])

/-! ## The request -/

theorem maskLength_begins {buf : List Byte} (h : known <+: buf) (hlen : 2 ≤ known.length) :
    maskLength known = maskLength buf := by
  have hiff : [0, 0] <+: known ↔ ([0, 0] : List Byte) <+: buf :=
    ⟨fun hpre => hpre.trans h, fun hpre => List.prefix_of_prefix_length_le hpre h hlen⟩
  simp only [maskLength, hiff]

variable (s mf) in
/-- The function mask is taken off where there is one. -/
theorem takeFunctionmask_spec {buf : List Byte} (hdata : mf.data = ⟨.first, 0⟩)
    (hfirst : s.first = some buf) (hlen : 8 ≤ buf.length) :
    ∃ mask, takeFunctionmask s mf = .ok ({ s with functionmask := mask },
      some { mf with
        data := ⟨.first, maskLength buf⟩
        size := mf.size - BitVec.ofNat 64 (maskLength buf) }, 0) := by
  have hcontent : s.content mf.data.buf = .ok buf := by
    rw [hdata]
    simp only [State.content, hfirst]
  have hread : readBytes buf mf.data.off 8 = .ok (buf.take 8) := by
    rw [hdata, readBytes, if_pos (by simpa using hlen), List.drop_zero]
  have hmask : ((buf.take 8).getD 0 0 = 0 ∧ (buf.take 8).getD 1 0 = 0) ↔ [0, 0] <+: buf := by
    rcases buf with _ | ⟨a, _ | ⟨b, rest⟩⟩
    · simp at hlen
    · simp at hlen
    · rw [List.cons_prefix_cons, List.cons_prefix_cons]
      simp only [List.take_succ_cons, List.getD_cons_zero, List.getD_cons_succ, List.nil_prefix,
        and_true, eq_comm (a := (0 : Byte))]
  rw [takeFunctionmask, hcontent, ok_bind, hread, ok_bind, maskLength]
  by_cases hzero : ([0, 0] : List Byte) <+: buf
  · rw [if_pos (hmask.mpr hzero), if_pos hzero]
    exact ⟨_, by simp only [hdata, Nat.zero_add]; rfl⟩
  · rw [if_neg (mt hmask.mp hzero), if_neg hzero]
    refine ⟨(buf.take 8).set 7 0, ?_⟩
    have hsame : mf.size - BitVec.ofNat 64 0 = mf.size := by simp
    rw [hsame, ← hdata]

/-- The three sources that have the whole image in the buffer. -/
theorem requested_of_image {image : List Byte} (hsource : env.source ≠ .file)
    (himage : image = env.image) (hlen : 8 ≤ image.length) (hfirst : s.first = some image)
    (hsecond : s.second = none) (hbus : s.bus = ⟨env.answers, []⟩) (hdata : mf.data = ⟨.first, 0⟩)
    (hsize : mf.size = BitVec.ofNat 64 image.length) (hfs : mf.isFromFs = env.source.isRequest)
    (hhex : mf.isFromHex = !env.source.allocates)
    (hpriv : mf.priv = none ∨ mf.priv = some ⟨.first, 0⟩) :
    ∃ s' mf', takeFunctionmask s mf = .ok (s', some mf', 0) ∧ Requested env s' mf' image ∧
      s'.first = some image := by
  obtain ⟨mask, htake⟩ := takeFunctionmask_spec s mf hdata hfirst hlen
  refine ⟨_, _, htake, ?_⟩
  have hview : View image (maskLength image) env.container 0 := by
    simp only [View, Env.container, himage, List.drop_zero, List.prefix_refl]
  have henv : mf.size - BitVec.ofNat 64 (maskLength image) = env.size := by
    rw [hsize, himage, Env.size]
    split
    · contradiction
    · rfl
  refine ⟨?_, hfirst⟩
  exact {
    first := ⟨image, hfirst, List.prefix_refl image⟩
    second := hsecond
    bus := hbus
    data := rfl
    size := henv
    fs := hfs
    hex := hhex
    priv := hpriv
    filePriv := fun hfile => absurd hfile hsource
    view := hview
    file := fun hfile => absurd hfile hsource }

/-- A request from these sources that is granted leaves the image, if the mask is in it. -/
theorem marlinRequestFirmware_image (hkmalloc : env.kmalloc = true) (hgranted : env.Granted)
    (hsource : env.source ≠ .file) :
    ∃ s mf, marlinRequestFirmware env (init env) = takeFunctionmask s mf ∧
      env.known = some env.image ∧ mf.data = ⟨.first, 0⟩ ∧ s.first = some env.image ∧
      (8 ≤ env.image.length → ∃ s' mf', takeFunctionmask s mf = .ok (s', some mf', 0) ∧
        Requested env s' mf' env.image ∧ s'.first = some env.image) := by
  have hk : (!env.kmalloc) = false := by rw [hkmalloc]; rfl
  have hspec := @requested_of_image env
  rw [marlinRequestFirmware, hk, if_neg Bool.false_ne_true]
  rw [Env.Granted] at hgranted
  simp only [Env.known, Env.image]
  cases henv : env.source with
  | file => exact absurd henv hsource
  | hex image =>
    refine ⟨{ init env with mfirmware := true, first := some image },
      ⟨⟨.first, 0⟩, BitVec.ofNat 64 image.length, false, some ⟨.first, 0⟩, true⟩, rfl, rfl, rfl,
      rfl, fun hlen => ?_⟩
    exact hspec hsource (by rw [Env.image, henv]) hlen rfl rfl rfl rfl rfl (by rw [henv]; rfl)
      (by rw [henv]; rfl) (.inr rfl)
  | backup image =>
    refine ⟨{ init env with mfirmware := true, first := some image },
      ⟨⟨.first, 0⟩, BitVec.ofNat 64 image.length, false, none, true⟩, rfl, rfl, rfl, rfl,
      fun hlen => ?_⟩
    exact hspec hsource (by rw [Env.image, henv]) hlen rfl rfl rfl rfl rfl (by rw [henv]; rfl)
      (by rw [henv]; rfl) (.inl rfl)
  | request firmware backedUp =>
    rw [henv] at hgranted
    cases firmware with
    | none => exact hgranted.elim
    | some image =>
      cases backedUp with
      | false => exact hgranted.elim
      | true =>
        refine ⟨{ init env with mfirmware := true, first := some image, copy := some image },
          ⟨⟨.first, 0⟩, BitVec.ofNat 64 image.length, true, some ⟨.first, 0⟩, false⟩, rfl, rfl, rfl,
          rfl, fun hlen => ?_⟩
        exact hspec hsource (by rw [Env.image, henv]) hlen rfl rfl rfl rfl rfl
          (by rw [henv]; rfl) (by rw [henv]; rfl) (.inr rfl)

/-- A request that is granted leaves a buffer, or nothing where no file can be read. -/
theorem marlinRequestFirmware_spec (hkmalloc : env.kmalloc = true) (hgranted : env.Granted)
    (hmask : ∀ known, env.known = some known → MaskFits env known) :
    (∃ s mf known, marlinRequestFirmware env (init env) = .ok (s, some mf, 0) ∧
      env.known = some known ∧ Requested env s mf known) ∨
    marlinRequestFirmware env (init env) = .ok (init env, none, -1) := by
  by_cases hsource : env.source = .file
  swap
  · left
    obtain ⟨s, mf, hrequest, hknown, -, -, hspec⟩ :=
      marlinRequestFirmware_image hkmalloc hgranted hsource
    have hlen := hmask env.image hknown
    rw [MaskFits, if_neg hsource] at hlen
    obtain ⟨s', mf', htake, hrequested, -⟩ := hspec hlen
    exact ⟨s', mf', env.image, hrequest.trans htake, hknown, hrequested⟩
  have hk : (!env.kmalloc) = false := by rw [hkmalloc]; rfl
  rw [marlinRequestFirmware, hk, if_neg Bool.false_ne_true, hsource]
  · have hmax : 8 ≤ firmwareMaxSize env.uwe5622 := by cases env.uwe5622 <;> decide
    by_cases hread : env.missed < WCN_FW_MAX_PATH_NUM ∧ env.firstRead.opened ∧
        env.firstRead.allocated
    · left
      obtain ⟨known, hread_eq⟩ : ∃ known, known = readLoop env.file env.firstRead.reads 0
          (firmwareMaxSize env.uwe5622) := ⟨_, rfl⟩
      have hknown : env.known = some known := by
        simp only [Env.known, hsource, if_pos hread, hread_eq]
      have hfits := hmask known hknown
      rw [MaskFits, if_pos hsource] at hfits
      obtain ⟨hlen, hnone⟩ := hfits
      cases hload : loadFirmwareDataPath env.file env.firstRead 0 (firmwareMaxSize env.uwe5622) with
      | none =>
        have hpos : (0 : ℤ) < firmwareMaxSize env.uwe5622 := by omega
        rw [loadFirmwareDataPath, if_pos ⟨hread.2.1, hread.2.2, hpos⟩] at hload
        cases hload
      | some buf =>
        have hpre := loadFirmwareDataPath_begins hload
        have hbuf := loadFirmwareDataPath_length hload
        have hfile := (readLoop_begins env.file env.firstRead.reads 0
          (firmwareMaxSize env.uwe5622)).1
        rw [Int.toNat_natCast] at hpre hbuf
        rw [← hread_eq] at hpre hfile
        rw [Int.toNat_zero, List.drop_zero] at hfile
        -- neither the buffer nor the file begins with a mask
        have hnomask : maskLength buf = 0 := by rw [← maskLength_begins hpre hlen, hnone]
        have hcontainer : env.container = env.file := by
          have himage : env.image = env.file := by rw [Env.image, hsource]
          rw [Env.container, himage, ← maskLength_begins hfile hlen, hnone, List.drop_zero]
        obtain ⟨mask, htake⟩ := takeFunctionmask_spec
          { init env with mfirmware := true, first := some buf }
          ⟨⟨.first, 0⟩, BitVec.ofNat 64 (firmwareMaxSize env.uwe5622), false,
            some ⟨.first, 0⟩, false⟩ rfl rfl (by rw [hbuf]; exact hmax)
        simp only [if_pos hread.1, hload]
        refine ⟨_, _, known, htake, hknown, ?_⟩
        exact {
          first := ⟨buf, rfl, hpre⟩
          second := rfl
          bus := rfl
          data := by rw [hnomask, hnone]
          size := by simp [hnomask, Env.size, hsource]
          fs := by rw [hsource]; rfl
          hex := by rw [hsource]; rfl
          priv := .inr rfl
          filePriv := fun _ => rfl
          view := by rw [hcontainer, hnone, View, List.drop_zero, List.drop_zero]; exact hfile
          file := fun _ => ⟨hnone, hcontainer⟩ }
    · right
      have hnone : (if env.missed < WCN_FW_MAX_PATH_NUM then
          loadFirmwareDataPath env.file env.firstRead 0 (firmwareMaxSize env.uwe5622) else none) =
          none := by
        by_cases hmissed : env.missed < WCN_FW_MAX_PATH_NUM
        · rw [if_pos hmissed, loadFirmwareDataPath, if_neg]
          intro hall
          exact hread ⟨hmissed, hall.1, hall.2.1⟩
        · rw [if_neg hmissed]
      simp only [hnone]
      rfl

theorem takeFunctionmask_length {buf : List Byte} {r : State × Option MarlinFirmware × ℤ}
    (hdata : mf.data = ⟨.first, 0⟩) (hfirst : s.first = some buf)
    (hr : takeFunctionmask s mf = .ok r) : 8 ≤ buf.length := by
  obtain ⟨buf', hbuf, hr⟩ := bind_eq_ok.mp hr
  obtain ⟨mask, hread, -⟩ := bind_eq_ok.mp hr
  rw [hdata] at hbuf hread
  simp only [State.content, hfirst] at hbuf
  obtain rfl := Except.ok.inj hbuf
  rw [readBytes] at hread
  split at hread
  case isTrue hin => simpa using hin
  case isFalse => cases hread

/-- Only the buffer of a file is freed when an image is read again. -/
theorem file_of_vfree {p : Option Ptr} (hp : p = none ∨ p = some ⟨.first, 0⟩) {t : State}
    (h : vfree env s p = .ok t) : env.source = .file := by
  rcases hp with rfl | rfl
  · cases h
  · rw [vfree] at h
    split at h
    case isTrue hfile => exact hfile.1
    case isFalse => cases h

theorem fits_of_download (h : Requested env s mf known) (hfirst : s.first = some known)
    (hsource : env.source ≠ .file) {t : State} {ret : ℤ}
    (hrun : download cfg env s mf = .ok (t, ret)) (hloaded : Loaded cfg env t ret) :
    ∃ pack, parsePack cfg known (maskLength known) = .ok pack ∧
      (pack ≠ .noImage → PackFits env known pack) := by
  have hcontent : s.content mf.data.buf = .ok known := by
    rw [h.data]
    simp only [State.content, hfirst]
  obtain ⟨⟨s₁, mf₁, ret₁⟩, hparse, hrun⟩ := bind_eq_ok.mp hrun
  rw [marlinFirmwareParseImage, hcontent, ok_bind] at hparse
  obtain ⟨pack, hpack, hparse⟩ := bind_eq_ok.mp hparse
  rw [h.data] at hpack
  refine ⟨pack, hpack, fun hno => ?_⟩
  rw [if_neg hno, h.rereads_eq] at hparse
  rw [PackFits]
  by_cases hbeyond : env.beyond pack = true
  · rw [if_pos hbeyond]
    simp only [hbeyond, if_true] at hparse
    cases hload : loadFirmwareDataPath env.file env.secondRead pack.offset.toInt
        pack.size.toInt with
    | none => exact fun hfile => absurd hfile hsource
    | some buffer =>
      rw [hload] at hparse
      obtain ⟨u, hfree, -⟩ := map_eq_ok.mp hparse
      exact absurd (file_of_vfree h.priv hfree) hsource
  · rw [if_neg hbeyond]
    simp only [hbeyond] at hparse
    obtain ⟨rfl, rfl, rfl⟩ : s = s₁ ∧ _ = mf₁ ∧ (0 : ℤ) = ret₁ := by
      simpa using Except.ok.inj hparse
    simp only [ne_eq, not_true_eq_false, if_false, hcontent, ok_bind] at hrun
    obtain ⟨⟨bus, ret'⟩, hwrite, hrun⟩ := bind_eq_ok.mp hrun
    obtain ⟨u, hrelease, hu⟩ := map_eq_ok.mp hrun
    obtain ⟨rfl, rfl⟩ := Prod.mk.inj hu
    obtain ⟨v, hv, hbus, -⟩ := h.release { s with bus := bus }
      { mf with
        data := ⟨mf.data.buf, mf.data.off + pack.offset.toNat⟩
        size := pack.fwSize mf.size } ⟨rfl, rfl⟩ rfl h.second
      (fun hfile => absurd hfile hsource)
    obtain rfl := Except.ok.inj (hv.symm.trans hrelease)
    have hview := h.view.shift pack.offset.toNat
    rw [Nat.zero_add] at hview
    refine ⟨fun hfile => absurd hfile hsource, ?_⟩
    rw [h.data, h.size] at hwrite
    have hanswers : s.bus.answers = env.answers := by rw [h.bus]
    rw [← hanswers]
    refine writeFits_of_ok hview (by rw [h.bus]) hwrite fun hret => ?_
    have hwritten := hloaded.written hret
    rw [hbus, (parsePack_spec h.view hpack).selected_eq hno] at hwritten
    exact hwritten

theorem granted_of_loads (hkmalloc : env.kmalloc = true) (h : Loads cfg env) : env.Granted := by
  obtain ⟨t, ret, hrun, hloaded⟩ := h
  have hk : (!env.kmalloc) = false := by rw [hkmalloc]; rfl
  rw [btwifiDownloadFirmware, marlinRequestFirmware, hk, if_neg Bool.false_ne_true] at hrun
  rw [Env.Granted]
  -- a request that fails keeps what it has allocated
  cases hsource : env.source with
  | hex image => trivial
  | backup image => trivial
  | file => trivial
  | request firmware backedUp =>
    rw [hsource] at hrun
    cases firmware with
    | none =>
      obtain ⟨rfl, rfl⟩ := Prod.mk.inj (Except.ok.inj hrun)
      cases hloaded.mfirmware
    | some image =>
      cases backedUp with
      | true => trivial
      | false =>
        obtain ⟨rfl, rfl⟩ := Prod.mk.inj (Except.ok.inj hrun)
        cases hloaded.mfirmware

theorem fits_of_loads (hsource : env.source ≠ .file) (h : Loads cfg env) : Fits cfg env := by
  intro hkmalloc
  have hgranted := granted_of_loads hkmalloc h
  refine ⟨hgranted, fun known hknown => ?_⟩
  obtain ⟨s, mf, hrequest, hknown', hdata, hfirst, hspec⟩ :=
    marlinRequestFirmware_image hkmalloc hgranted hsource
  obtain rfl := Option.some.inj (hknown'.symm.trans hknown)
  obtain ⟨t, ret, hrun, hloaded⟩ := h
  obtain ⟨r, htake, hrun⟩ := bind_eq_ok.mp hrun
  rw [hrequest] at htake
  have hlen := takeFunctionmask_length hdata hfirst htake
  obtain ⟨s', mf', htake', hrequested, hfirst'⟩ := hspec hlen
  obtain rfl := Except.ok.inj (htake'.symm.trans htake)
  refine ⟨?_, fits_of_download hrequested hfirst' hsource hrun hloaded⟩
  rw [MaskFits, if_neg hsource]
  exact hlen

theorem loads_of_fits (cfg : Config) (env : Env) (h : Fits cfg env) : Loads cfg env := by
  by_cases hkmalloc : env.kmalloc = true
  · obtain ⟨hgranted, hknown⟩ := h hkmalloc
    rcases marlinRequestFirmware_spec hkmalloc hgranted (fun known hk => (hknown known hk).1) with
      ⟨s, mf, known, hrequest, hk, hrequested⟩ | hrequest
    · obtain ⟨-, pack, hpack, hfits⟩ := hknown known hk
      obtain ⟨t, ret, hrun, hloaded⟩ := download_spec hrequested hpack hfits
      refine ⟨t, ret, ?_, hloaded⟩
      rw [btwifiDownloadFirmware, hrequest, ok_bind]
      exact hrun
    · refine ⟨init env, -1, by rw [btwifiDownloadFirmware, hrequest, ok_bind], ?_⟩
      exact ⟨fun hret => (by cases hret), fun _ => rfl, rfl, rfl⟩
  · -- nothing is allocated
    have hrequest : marlinRequestFirmware env (init env) = .ok (init env, none, -ENOMEM) := by
      rw [marlinRequestFirmware, if_pos (by simpa using hkmalloc)]
    refine ⟨init env, -ENOMEM, by rw [btwifiDownloadFirmware, hrequest, ok_bind], ?_⟩
    exact ⟨fun hret => (by cases hret), fun _ => rfl, rfl, rfl⟩

/-- A load that fits is right. Without a file, whose buffer also has what was in the memory before,
no other load is. -/
theorem firmware_loads (cfg : Config) (env : Env) : (Fits cfg env → Loads cfg env) ∧
    (env.source ≠ .file → (Loads cfg env ↔ Fits cfg env)) := by
  refine ⟨loads_of_fits cfg env, fun hsource => ⟨fits_of_loads hsource, loads_of_fits cfg env⟩⟩

def sampleReading : Reading := ⟨false, false, [], fun _ => 0⟩

def requestOf (image : List Byte) : Env where
  source := .request (some image) true
  uwe5622 := false
  kmalloc := true
  file := []
  missed := 0
  firstRead := sampleReading
  secondRead := sampleReading
  answers := []

def sampleConfig : Config := ⟨true, .marlin3, .aa⟩

/-- A combined pack of one image of two bytes. -/
def samplePack : List Byte :=
  WCNE ++ [0, 0, 0, 0, 1, 0, 0, 0] ++ [0, 0, 0x50, 0x40, 24, 0, 0, 0, 2, 0, 0, 0] ++ [0xaa, 0xbb]

theorem samplePack_loads : Fits sampleConfig (requestOf samplePack) ∧
    Loads sampleConfig (requestOf samplePack) := by
  have hfits : Fits sampleConfig (requestOf samplePack) := by
    intro _
    refine ⟨trivial, fun known hknown => ?_⟩
    obtain rfl := Option.some.inj hknown
    have hmask : MaskFits (requestOf samplePack) samplePack := by
      rw [MaskFits, if_neg (by decide)]
      decide
    have hmagic : strncmp samplePack (maskLength samplePack + (Pack.combined 26).offset.toNat)
        WCNE = .ok true := by decide
    have hcount : imgCount samplePack (maskLength samplePack + (Pack.combined 26).offset.toNat) =
        1 := by decide
    refine ⟨hmask, .combined 26, by decide, fun _ => ?_⟩
    rw [PackFits, if_neg (by decide)]
    refine ⟨fun _ => rfl, ?_⟩
    rw [WriteFits, hmagic]
    refine ⟨by decide, ?_⟩
    rw [if_neg (by decide), hcount]
    refine ⟨by decide, fun _ => ⟨?_, fun _ => trivial⟩⟩
    rw [DispackFits]
    decide
  exact ⟨hfits, (firmware_loads sampleConfig (requestOf samplePack)).1 hfits⟩

/-- A pack that ends before its image. -/
def truncatedPack : List Byte :=
  WCNM ++ [0, 0, 0, 0, 1, 0, 0, 0] ++ [0x33, 0x30, 0x41, 0x41, 24, 0, 0, 0, 2, 0, 0, 0]

/-- `marlin_firmware_parse_image` does not compare an image with what `request_firmware` gave. -/
theorem truncated_pack_overread : ¬ ∀ cfg env, Loads cfg env := by
  intro hall
  obtain ⟨t, ret, hrun, -⟩ := hall sampleConfig (requestOf truncatedPack)
  have hfault : btwifiDownloadFirmware sampleConfig (requestOf truncatedPack) =
      .error .outOfBounds := rfl
  rw [hfault] at hrun
  cases hrun

end Uwe5631.Firmware
