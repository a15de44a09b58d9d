import Uwe5631.TcpAckFrames
import Mathlib.Data.Vector.Basic

/-!
# The options of a TCP header

The grammar of the option list, and that `is_drop_tcp_ack` reads a list of the grammar
option by option: it stays inside the header, and what it returns is told by the kinds.
-/
namespace Uwe5631.TcpAck
open FallibleRuns

/-! ## The grammar -/

/-- An option that does not end the list. The length byte of a `sized` one counts the kind
and itself. -/
inductive TcpOption where
  | nop
  | sized (kind : Byte) (body : List Byte) (hkind : kind ≠ TCPOPT_EOL ∧ kind ≠ TCPOPT_NOP)
      (hbody : body.length + 2 < 2 ^ 8)

namespace TcpOption

def bytes : TcpOption → List Byte
  | nop => [TCPOPT_NOP]
  | sized kind body _ _ => kind :: BitVec.ofNat 8 (body.length + 2) :: body

/-- An option that keeps the acknowledgement droppable. -/
def Ignored : TcpOption → Prop
  | nop => True
  | sized kind _ _ _ => kind = TCPOPT_TIMESTAMP ∨ kind = TCPOPT_WINDOW

instance : DecidablePred Ignored
  | nop => inferInstanceAs (Decidable True)
  | sized kind _ _ _ => inferInstanceAs (Decidable (kind = TCPOPT_TIMESTAMP ∨ kind = TCPOPT_WINDOW))

/-- A `TCPOPT_NOP` or a timestamp. -/
def Plain : TcpOption → Prop
  | nop => True
  | sized kind _ _ _ => kind = TCPOPT_TIMESTAMP

instance : DecidablePred Plain
  | nop => inferInstanceAs (Decidable True)
  | sized kind _ _ _ => inferInstanceAs (Decidable (kind = TCPOPT_TIMESTAMP))

/-- A window scale option has its shift count. -/
def HasShift : TcpOption → Prop
  | nop => True
  | sized kind body _ _ => kind = TCPOPT_WINDOW → body ≠ []

instance : DecidablePred HasShift
  | nop => inferInstanceAs (Decidable True)
  | sized kind body _ _ => inferInstanceAs (Decidable (kind = TCPOPT_WINDOW → body ≠ []))

/-- The scale an option sets, in place of the one before. -/
def scale (winScale : ℕ) : TcpOption → ℕ
  | sized kind (shift :: _) _ _ =>
    if kind = TCPOPT_WINDOW ∧ shift.toNat < 15 then 1 <<< shift.toNat else winScale
  | _ => winScale

end TcpOption

/-- The bytes of a list of options. -/
def optionBytes (options : List TcpOption) : List Byte := options.flatMap TcpOption.bytes

/-- No option starts here: the length is missing, less than 2 or more than is left. -/
def Malformed : List Byte → Prop
  | [] => False
  | [kind] => kind ≠ TCPOPT_EOL ∧ kind ≠ TCPOPT_NOP
  | kind :: size :: rest => kind ≠ TCPOPT_EOL ∧ kind ≠ TCPOPT_NOP ∧
      (size.toNat < 2 ∨ rest.length + 2 < size.toNat)

instance : DecidablePred Malformed
  | [] => inferInstanceAs (Decidable False)
  | [kind] => inferInstanceAs (Decidable (kind ≠ TCPOPT_EOL ∧ kind ≠ TCPOPT_NOP))
  | kind :: size :: rest => inferInstanceAs (Decidable (kind ≠ TCPOPT_EOL ∧ kind ≠ TCPOPT_NOP ∧
      (size.toNat < 2 ∨ rest.length + 2 < size.toNat)))

/-- Every string is a list of options up to its end, a `TCPOPT_EOL` or a malformed option. -/
theorem exists_optionBytes (s : List Byte) : ∃ options rest, s = optionBytes options ++ rest ∧
    (rest = [] ∨ rest.head? = some TCPOPT_EOL ∨ Malformed rest) := by
  induction hlen : s.length using Nat.strong_induction_on generalizing s with
  | _ n ih =>
    have hcons (o : TcpOption) (t : List Byte) (ht : t.length < n) (hs : s = o.bytes ++ t) :
        ∃ options rest, s = optionBytes options ++ rest ∧
          (rest = [] ∨ rest.head? = some TCPOPT_EOL ∨ Malformed rest) := by
      obtain ⟨options, rest, rfl, hrest⟩ := ih _ ht t rfl
      exact ⟨o :: options, rest, by rw [hs, optionBytes, optionBytes, List.flatMap_cons,
        List.append_assoc], hrest⟩
    match s, hlen with
    | [], _ => exact ⟨[], [], rfl, .inl rfl⟩
    | kind :: s, hlen =>
      by_cases heol : kind = TCPOPT_EOL
      · exact ⟨[], kind :: s, rfl, .inr (.inl (congrArg some heol))⟩
      · by_cases hnop : kind = TCPOPT_NOP
        · refine hcons .nop s ?_ (by rw [hnop]; rfl)
          rw [← hlen]
          exact Nat.lt_succ_self _
        · match s, hlen with
          | [], _ => exact ⟨[], [kind], rfl, .inr (.inr ⟨heol, hnop⟩)⟩
          | size :: s, hlen =>
            by_cases hsize : size.toNat < 2 ∨ s.length + 2 < size.toNat
            · exact ⟨[], kind :: size :: s, rfl, .inr (.inr ⟨heol, hnop, hsize⟩)⟩
            · have htake : (s.take (size.toNat - 2)).length + 2 = size.toNat := by
                rw [List.length_take]
                omega
              refine hcons (.sized kind (s.take (size.toNat - 2)) ⟨heol, hnop⟩
                (by rw [htake]; exact size.isLt)) (s.drop (size.toNat - 2)) ?_ ?_
              · rw [← hlen, List.length_drop, List.length_cons, List.length_cons]
                omega
              · rw [TcpOption.bytes, htake, BitVec.ofNat_toNat, BitVec.setWidth_eq,
                  List.cons_append, List.cons_append, List.take_append_drop]

/-! ## The walk -/

/-- `ptr += opsize - 2` -/
theorem optionLoop_skip (body rest : List Byte) (len drop winScale : ℕ) :
    optionLoop (body ++ rest) body.length len drop winScale =
      optionLoop rest 0 len drop winScale := by
  induction body with
  | nil => rfl
  | cons b body ih =>
    cases len with
    | zero =>
      rw [optionLoop, optionLoop]
    | succ len => simpa only [List.cons_append, List.length_cons, optionLoop] using ih

/-- What the walk returns when only ignored options are met. -/
def optionDrop (drop : ℕ) (o : TcpOption) : ℕ := if o.Ignored then drop else 2

theorem optionLoop_nop (rest : List Byte) (len drop winScale : ℕ) :
    optionLoop (TCPOPT_NOP :: rest) 0 (len + 1) drop winScale =
      optionLoop rest 0 len drop winScale := by
  have heol : TCPOPT_NOP ≠ TCPOPT_EOL := by decide
  cases rest <;> rw [optionLoop, if_neg heol, if_pos rfl]

/-- One option is passed over as a whole. -/
theorem optionLoop_option {o : TcpOption} (hshift : o.HasShift) (rest : List Byte)
    (len drop winScale : ℕ) :
    optionLoop (o.bytes ++ rest) 0 (o.bytes.length + len) drop winScale =
      optionLoop rest 0 len (optionDrop drop o) (o.scale winScale) := by
  cases o with
  | nop =>
    have hlen : TcpOption.nop.bytes.length + len = len + 1 := Nat.add_comm _ _
    rw [hlen]
    exact optionLoop_nop rest len drop winScale
  | sized kind body hkind hbody =>
    have hsize : (BitVec.ofNat 8 (body.length + 2)).toNat = body.length + 2 := by
      rw [BitVec.toNat_ofNat, Nat.mod_eq_of_lt hbody]
    have hlen : (TcpOption.sized kind body hkind hbody).bytes.length + len =
        (body.length + 1 + len) + 1 := by
      rw [TcpOption.bytes, List.length_cons, List.length_cons]
      omega
    have hfits : ¬ (body.length + 2 < 2 ∨ body.length + 1 + len + 1 < body.length + 2) := by omega
    have hleft : body.length + 1 + len + 1 - (body.length + 2) = len := by omega
    rw [hlen, TcpOption.bytes, List.cons_append, List.cons_append, optionLoop]
    simp only [if_neg hkind.1, if_neg hkind.2, hsize, if_neg hfits, Nat.add_sub_cancel, hleft]
    by_cases htimestamp : kind = TCPOPT_TIMESTAMP
    · subst htimestamp
      have hscale : (TcpOption.sized TCPOPT_TIMESTAMP body hkind hbody).scale winScale = winScale := by
        cases body <;> rfl
      rw [if_pos rfl, optionLoop_skip, hscale]
      rfl
    · rw [if_neg htimestamp]
      by_cases hwindow : kind = TCPOPT_WINDOW
      · subst hwindow
        rw [if_pos rfl]
        cases body with
        | nil => exact absurd rfl (hshift rfl)
        | cons shift body =>
          have hskip := optionLoop_skip (shift :: body) rest len drop
            (if shift.toNat < 15 then 1 <<< shift.toNat else winScale)
          have hdrop : optionDrop drop (.sized TCPOPT_WINDOW (shift :: body) hkind hbody) = drop :=
            if_pos (.inr rfl)
          simp only [TcpOption.scale, hdrop, true_and]
          exact hskip
      · rw [if_neg hwindow, optionLoop_skip]
        have hscale : (TcpOption.sized kind body hkind hbody).scale winScale = winScale := by
          cases body with
          | nil => rfl
          | cons shift body => exact if_neg (fun h => hwindow h.1)
        have hdrop : optionDrop drop (.sized kind body hkind hbody) = 2 :=
          if_neg (fun h => h.elim htimestamp hwindow)
        rw [hscale, hdrop]

/-- The walk over a list of options, whatever is behind it. -/
theorem optionLoop_options {options : List TcpOption} (hshift : ∀ o ∈ options, o.HasShift)
    (back : List Byte) (drop winScale : ℕ) :
    optionLoop (optionBytes options ++ back) 0 (optionBytes options).length drop winScale =
      .ok (options.foldl optionDrop drop, options.foldl TcpOption.scale winScale) := by
  induction options generalizing drop winScale with
  | nil =>
    cases back <;> rfl
  | cons o options ih =>
    have hbytes : optionBytes (o :: options) = o.bytes ++ optionBytes options := rfl
    rw [hbytes, List.length_append, List.append_assoc,
      optionLoop_option (hshift o List.mem_cons_self)]
    exact ih (fun o ho => hshift o (List.mem_cons_of_mem _ ho)) _ _

theorem foldl_optionDrop (options : List TcpOption) (drop : ℕ) :
    options.foldl optionDrop drop = if ∀ o ∈ options, o.Ignored then drop else 2 := by
  induction options generalizing drop with
  | nil => rfl
  | cons o options ih =>
    rw [List.foldl_cons, ih, optionDrop]
    by_cases ho : o.Ignored <;> simp [ho]

/-! ## Whole headers -/

/-- A TCP header as it stands in a frame: `doff` counts its words of four bytes. -/
structure TcpHeader where
  fixed : Vector Byte 20
  options : List Byte
  doff : (fixed[12].extractLsb' 4 4).toNat * 4 = 20 + options.length

def TcpHeader.bytes (h : TcpHeader) : List Byte := h.fixed.toList ++ h.options

/-- `doff * 4` -/
def TcpHeader.len (h : TcpHeader) : ℕ := 20 + h.options.length

theorem byteAt_doff (h : TcpHeader) (front back : List Byte) :
    byteAt (front ++ (h.bytes ++ back)) (front.length + 12) = .ok h.fixed[12] := by
  have hfixed : h.fixed.toList[12]? = some h.fixed[12] := by
    rw [List.getElem?_eq_getElem (by simp), Vector.getElem_toList]
  have hbyte : (front ++ (h.bytes ++ back))[front.length + 12]? = some h.fixed[12] := by
    rw [List.getElem?_append_right (Nat.le_add_right _ _), Nat.add_sub_cancel_left,
      TcpHeader.bytes, List.append_assoc, List.getElem?_append_left (by simp), hfixed]
  rw [byteAt, hbyte]

/-- Behind the 20 bytes of the header the options start. -/
theorem drop_fixed (h : TcpHeader) (front back : List Byte) :
    (front ++ (h.bytes ++ back)).drop (front.length + 20) = h.options ++ back := by
  have hlen : h.fixed.toList.length = 20 := by simp
  rw [← List.drop_drop, List.drop_left, TcpHeader.bytes, List.append_assoc]
  exact List.drop_left' hlen

/-- A header whose options follow the grammar up to their last byte is classified by their
kinds, and nothing in front of it or behind it is read. -/
theorem option_walk_follows_grammar (h : TcpHeader) {options : List TcpOption}
    (hoptions : h.options = optionBytes options) (hshift : ∀ o ∈ options, o.HasShift)
    (front back : List Byte) (tcpTotLen : ℤ) :
    isDropTcpAck (front ++ (h.bytes ++ back)) front.length tcpTotLen = .ok
      (if (h.len : ℤ) < tcpTotLen then (0, 0)
        else (if ∀ o ∈ options, o.Ignored then 1 else 2, options.foldl TcpOption.scale 0)) := by
  have hlen : (h.fixed[12].extractLsb' 4 4).toNat * 4 = (h.len : ℤ) := by
    exact_mod_cast h.doff
  have hwalk : optionLoop (h.options ++ back) 0 h.options.length 1 0 =
      .ok (if ∀ o ∈ options, o.Ignored then 1 else 2, options.foldl TcpOption.scale 0) := by
    rw [hoptions, optionLoop_options hshift, foldl_optionDrop]
  rw [isDropTcpAck, byteAt_doff, ok_bind, drop_fixed, hlen, h.doff, Nat.add_sub_cancel_left, hwalk]
  split <;> rfl

/-- A header of eight words: two `TCPOPT_NOP` and a timestamp. -/
def timestampHeader : TcpHeader :=
  ⟨#v[0, 80, 4, 210, 0, 0, 0, 1, 0, 0, 0, 2, 0x80, 0x10, 1, 0, 0, 0, 0, 0],
    [1, 1, 8, 10, 0, 0, 0, 1, 0, 0, 0, 2], by decide⟩

/-- The options of `timestampHeader`. -/
def timestampOptions : List TcpOption :=
  [.nop, .nop, .sized TCPOPT_TIMESTAMP [0, 0, 0, 1, 0, 0, 0, 2] (by decide) (by decide)]

/-- A header of six words with a window scale option of shift 7. -/
def windowHeader : TcpHeader :=
  ⟨#v[0, 80, 4, 210, 0, 0, 0, 1, 0, 0, 0, 2, 0x60, 0x12, 1, 0, 0, 0, 0, 0],
    [3, 3, 7, 1], by decide⟩

/-- The option is neither `TCPOPT_NOP` nor a timestamp, and the acknowledgement may be dropped. -/
example : windowHeader.options =
    optionBytes [.sized TCPOPT_WINDOW [7] (by decide) (by decide), .nop] ∧
      isDropTcpAck windowHeader.bytes 0 24 = .ok (1, 128) :=
  ⟨rfl, by decide⟩

/-! ## Any options -/

/-- How the walk gets to its end on the bytes `s` that are left of the header, when it counts `k` more
than there are, and whether it meets an option that is not ignored. A `break` at `TCPOPT_EOL` or at a
malformed option passes over bytes that stay counted; only an option that reaches `k` bytes behind
the header uses up the count. -/
inductive Recovers : ℕ → List Byte → Bool → Prop
  | done : Recovers 0 [] false
  | option {k : ℕ} {s : List Byte} {other : Bool} (o : TcpOption) (hs : Recovers k s other)
      (hshift : s ≠ [] ∨ o.HasShift) : Recovers k (o.bytes ++ s) (other || !decide o.Ignored)
  | last {k : ℕ} {kind : Byte} {body : List Byte} (hkind : kind ≠ TCPOPT_EOL ∧ kind ≠ TCPOPT_NOP)
      (hk : 0 < k) (hsize : body.length + 2 + k < 2 ^ 8) (hshift : kind = TCPOPT_WINDOW → body ≠ []) :
      Recovers k (kind :: BitVec.ofNat 8 (body.length + 2 + k) :: body)
        (!decide (kind = TCPOPT_TIMESTAMP ∨ kind = TCPOPT_WINDOW))
  | eol {k : ℕ} {s : List Byte} {other : Bool} (hs : Recovers (k + 1) s other) :
      Recovers k (TCPOPT_EOL :: s) other
  | malformed {k : ℕ} {kind size : Byte} {s : List Byte} {other : Bool}
      (hkind : kind ≠ TCPOPT_EOL ∧ kind ≠ TCPOPT_NOP)
      (hsize : size.toNat < 2 ∨ s.length + 2 + k < size.toNat) (hs : Recovers (k + 2) s other) :
      Recovers k (kind :: size :: s) other

theorem optionLoop_beyond (body : List Byte) {skip : ℕ} (h : body.length ≤ skip)
    (len drop winScale : ℕ) : optionLoop body skip (len + 1) drop winScale = .error .frameRead := by
  induction body generalizing skip with
  | nil => rw [optionLoop]
  | cons b body ih =>
    rw [List.length_cons] at h
    obtain ⟨n, rfl⟩ : ∃ n, skip = n + 1 := ⟨skip - 1, by omega⟩
    rw [optionLoop]
    exact ih (by omega)

/-- A turn of the loop at an option whose size is at most what is counted. -/
theorem optionLoop_sized {kind size : Byte} (hkind : kind ≠ TCPOPT_EOL ∧ kind ≠ TCPOPT_NOP)
    {body : List Byte} {len : ℕ} (hsize : 2 ≤ size.toNat ∧ size.toNat ≤ len + 1)
    (hshift : kind = TCPOPT_WINDOW → body ≠ []) (drop winScale : ℕ) :
    ∃ winScale', optionLoop (kind :: size :: body) 0 (len + 1) drop winScale =
      optionLoop body (size.toNat - 2) (len + 1 - size.toNat)
        (if kind = TCPOPT_TIMESTAMP ∨ kind = TCPOPT_WINDOW then drop else 2) winScale' := by
  rw [optionLoop]
  simp only [if_neg hkind.1, if_neg hkind.2,
    if_neg (show ¬ (size.toNat < 2 ∨ len + 1 < size.toNat) by omega)]
  by_cases htimestamp : kind = TCPOPT_TIMESTAMP
  · rw [if_pos htimestamp, if_pos (.inl htimestamp)]
    exact ⟨winScale, rfl⟩
  · by_cases hwindow : kind = TCPOPT_WINDOW
    · rw [if_neg htimestamp, if_pos hwindow, if_pos (.inr hwindow)]
      cases body with
      | nil => exact absurd rfl (hshift hwindow)
      | cons shift body => exact ⟨_, rfl⟩
    · rw [if_neg htimestamp, if_neg hwindow, if_neg (not_or.mpr ⟨htimestamp, hwindow⟩)]
      exact ⟨winScale, rfl⟩

/-- A window scale option reads the byte behind its size. -/
theorem optionLoop_no_shift {size : Byte} {len : ℕ}
    (hsize : 2 ≤ size.toNat ∧ size.toNat ≤ len + 1) (drop winScale : ℕ) :
    optionLoop [TCPOPT_WINDOW, size] 0 (len + 1) drop winScale = .error .frameRead := by
  rw [optionLoop]
  simp only [if_neg (show TCPOPT_WINDOW ≠ TCPOPT_EOL by decide),
    if_neg (show TCPOPT_WINDOW ≠ TCPOPT_NOP by decide),
    if_neg (show ¬ (size.toNat < 2 ∨ len + 1 < size.toNat) by omega),
    if_neg (show TCPOPT_WINDOW ≠ TCPOPT_TIMESTAMP by decide), if_true]

theorem optionLoop_eol (s : List Byte) (len drop winScale : ℕ) :
    optionLoop (TCPOPT_EOL :: s) 0 (len + 1) drop winScale =
      optionLoop s 0 (len + 1) drop winScale := by
  cases s with
  | nil => exact if_pos rfl
  | cons b s => rw [optionLoop, if_pos rfl]

theorem optionLoop_malformed {kind size : Byte} (hkind : kind ≠ TCPOPT_EOL ∧ kind ≠ TCPOPT_NOP)
    (s : List Byte) {len : ℕ} (hsize : size.toNat < 2 ∨ len + 1 < size.toNat) (drop winScale : ℕ) :
    optionLoop (kind :: size :: s) 0 (len + 1) drop winScale =
      optionLoop s 0 (len + 1) drop winScale := by
  rw [optionLoop]
  simp only [if_neg hkind.1, if_neg hkind.2, if_pos hsize]

/-- One option is passed over, if there is a byte that a window scale option can take for its
shift. -/
theorem optionLoop_whole {o : TcpOption} {rest : List Byte} (hshift : rest ≠ [] ∨ o.HasShift)
    (len drop winScale : ℕ) :
    ∃ winScale', optionLoop (o.bytes ++ rest) 0 (o.bytes.length + len) drop winScale =
      optionLoop rest 0 len (optionDrop drop o) winScale' := by
  by_cases hhas : o.HasShift
  · exact ⟨_, optionLoop_option hhas rest len drop winScale⟩
  · cases o with
    | nop => exact absurd True.intro hhas
    | sized kind body hkind hbody =>
      have hrest := hshift.resolve_right hhas
      have hsize : (BitVec.ofNat 8 (body.length + 2)).toNat = body.length + 2 := by
        rw [BitVec.toNat_ofNat, Nat.mod_eq_of_lt hbody]
      have hlen : (TcpOption.sized kind body hkind hbody).bytes.length + len =
          (body.length + 1 + len) + 1 := by
        rw [TcpOption.bytes, List.length_cons, List.length_cons]
        omega
      have hfits : 2 ≤ (BitVec.ofNat 8 (body.length + 2)).toNat ∧
          (BitVec.ofNat 8 (body.length + 2)).toNat ≤ body.length + 1 + len + 1 := by
        rw [hsize]
        omega
      have hshift : kind = TCPOPT_WINDOW → body ++ rest ≠ [] :=
        fun _ => List.append_ne_nil_of_right_ne_nil _ hrest
      obtain ⟨winScale', hturn⟩ := optionLoop_sized hkind hfits hshift drop winScale
      refine ⟨winScale', ?_⟩
      rw [hlen, TcpOption.bytes, List.cons_append, List.cons_append, hturn, hsize,
        show body.length + 1 + len + 1 - (body.length + 2) = len by omega, Nat.add_sub_cancel,
        optionLoop_skip]
      rfl

/-- The walk that stays inside the header is told by `Recovers`. -/
theorem optionLoop_of_recovers {k : ℕ} {s : List Byte} {other : Bool} (h : Recovers k s other)
    (drop winScale : ℕ) :
    ∃ winScale', optionLoop s 0 (s.length + k) drop winScale =
      .ok (if other then 2 else drop, winScale') := by
  induction h generalizing drop winScale with
  | done => exact ⟨winScale, rfl⟩
  | @option k s other o hs hshift ih =>
    obtain ⟨winScale', hturn⟩ := optionLoop_whole hshift (s.length + k) drop winScale
    obtain ⟨winScale'', hrest⟩ := ih (optionDrop drop o) winScale'
    refine ⟨winScale'', ?_⟩
    rw [List.length_append, Nat.add_assoc, hturn, hrest, optionDrop]
    by_cases ho : o.Ignored <;> cases other <;> simp [ho]
  | @last k kind body hkind hk hsize hshift =>
    have hnat : (BitVec.ofNat 8 (body.length + 2 + k)).toNat = body.length + 2 + k := by
      rw [BitVec.toNat_ofNat, Nat.mod_eq_of_lt hsize]
    have hfits : 2 ≤ (BitVec.ofNat 8 (body.length + 2 + k)).toNat ∧
        (BitVec.ofNat 8 (body.length + 2 + k)).toNat ≤ body.length + 1 + k + 1 := by
      rw [hnat]
      omega
    obtain ⟨winScale', hturn⟩ := optionLoop_sized hkind hfits hshift drop winScale
    refine ⟨winScale', ?_⟩
    have hlen : (kind :: BitVec.ofNat 8 (body.length + 2 + k) :: body).length + k =
        body.length + 1 + k + 1 := by
      rw [List.length_cons, List.length_cons]
      omega
    rw [hlen, hturn, hnat,
      show body.length + 1 + k + 1 - (body.length + 2 + k) = 0 by omega, optionLoop]
    by_cases hignored : kind = TCPOPT_TIMESTAMP ∨ kind = TCPOPT_WINDOW <;> simp [hignored]
  | @eol k s other hs ih =>
    obtain ⟨winScale', hrest⟩ := ih drop winScale
    refine ⟨winScale', ?_⟩
    rw [List.length_cons, show s.length + 1 + k = s.length + k + 1 by omega, optionLoop_eol,
      show s.length + k + 1 = s.length + (k + 1) by omega, hrest]
  | @malformed k kind size s other hkind hsize hs ih =>
    obtain ⟨winScale', hrest⟩ := ih drop winScale
    refine ⟨winScale', ?_⟩
    rw [List.length_cons, List.length_cons,
      show s.length + 1 + 1 + k = s.length + k + 1 + 1 by omega,
      optionLoop_malformed hkind s (by omega),
      show s.length + k + 1 + 1 = s.length + (k + 2) by omega, hrest]

/-- What is behind an option's body counts alone. -/
theorem optionLoop_behind {body : List Byte} {n : ℕ} (h : n ≤ body.length) (len drop winScale : ℕ) :
    optionLoop body n len drop winScale = optionLoop (body.drop n) 0 len drop winScale := by
  have htake : (body.take n).length = n := List.length_take_of_le h
  have hskip := optionLoop_skip (body.take n) (body.drop n) len drop winScale
  rwa [List.take_append_drop, htake] at hskip

/-- A whole option before what recovers. -/
theorem Recovers.whole {k : ℕ} {kind size : Byte} {body : List Byte} {other : Bool}
    (hkind : kind ≠ TCPOPT_EOL ∧ kind ≠ TCPOPT_NOP) (hlow : 2 ≤ size.toNat)
    (hwhole : size.toNat ≤ body.length + 2) (hshift : kind = TCPOPT_WINDOW → body ≠ [])
    (hs : Recovers k (body.drop (size.toNat - 2)) other) :
    Recovers k (kind :: size :: body)
      (other || !decide (kind = TCPOPT_TIMESTAMP ∨ kind = TCPOPT_WINDOW)) := by
  have hlt := size.isLt
  have htake : (body.take (size.toNat - 2)).length = size.toNat - 2 :=
    List.length_take_of_le (by omega)
  have hsplit := List.take_append_drop (size.toNat - 2) body
  let o := TcpOption.sized kind (body.take (size.toNat - 2)) hkind (by rw [htake]; omega)
  have hbytes : kind :: size :: body = o.bytes ++ body.drop (size.toNat - 2) := by
    rw [TcpOption.bytes, htake, Nat.sub_add_cancel hlow, BitVec.ofNat_toNat,
      BitVec.setWidth_eq, List.cons_append, List.cons_append, hsplit]
  rw [hbytes]
  refine .option o hs ?_
  by_cases hnil : body.drop (size.toNat - 2) = []
  · refine .inr fun hwindow htaken => hshift hwindow ?_
    rw [← hsplit, htaken, hnil]
    rfl
  · exact .inl hnil

theorem recovers_of_optionLoop {k : ℕ} {s : List Byte} {drop winScale d w : ℕ}
    (h : optionLoop s 0 (s.length + k) drop winScale = .ok (d, w)) :
    ∃ other, Recovers k s other ∧ d = if other then 2 else drop := by
  induction hn : s.length using Nat.strong_induction_on generalizing s k drop winScale with
  | _ n ih =>
    cases s with
    | nil =>
      cases k with
      | zero =>
        cases h
        exact ⟨false, .done, rfl⟩
      | succ k =>
        rw [List.length_nil, Nat.zero_add, optionLoop] at h
        cases h
    | cons kind s =>
      rw [List.length_cons] at h hn
      rw [show s.length + 1 + k = s.length + k + 1 by omega] at h
      by_cases heol : kind = TCPOPT_EOL
      · subst heol
        rw [optionLoop_eol, show s.length + k + 1 = s.length + (k + 1) by omega] at h
        obtain ⟨other, hs, hd⟩ := ih s.length (by omega) h rfl
        exact ⟨other, .eol hs, hd⟩
      · by_cases hnop : kind = TCPOPT_NOP
        · subst hnop
          rw [optionLoop_nop] at h
          obtain ⟨other, hs, hd⟩ := ih s.length (by omega) h rfl
          refine ⟨other || !decide TcpOption.nop.Ignored, .option .nop hs (.inr True.intro), ?_⟩
          rw [hd, show decide TcpOption.nop.Ignored = true from rfl, Bool.not_true, Bool.or_false]
        · cases s with
          | nil =>
            rw [optionLoop, if_neg heol, if_neg hnop] at h
            cases h
          | cons size body =>
            rw [List.length_cons] at h hn
            have hkind : kind ≠ TCPOPT_EOL ∧ kind ≠ TCPOPT_NOP := ⟨heol, hnop⟩
            by_cases hsize : size.toNat < 2 ∨ body.length + 1 + k + 1 < size.toNat
            · rw [optionLoop_malformed hkind body hsize,
                show body.length + 1 + k + 1 = body.length + (k + 2) by omega] at h
              obtain ⟨other, hs, hd⟩ := ih body.length (by omega) h rfl
              exact ⟨other, .malformed hkind (by omega) hs, hd⟩
            · have hfits : 2 ≤ size.toNat ∧ size.toNat ≤ body.length + 1 + k + 1 := by omega
              have hshift : kind = TCPOPT_WINDOW → body ≠ [] := by
                rintro rfl rfl
                rw [optionLoop_no_shift hfits] at h
                cases h
              obtain ⟨winScale', hturn⟩ := optionLoop_sized hkind hfits hshift drop winScale
              rw [hturn] at h
              have hlt := size.isLt
              by_cases hwhole : size.toNat ≤ body.length + 2
              · -- The option is whole; what follows is shorter.
                have hdrop : (body.drop (size.toNat - 2)).length = body.length + 2 - size.toNat := by
                  rw [List.length_drop]
                  omega
                rw [optionLoop_behind (by omega), show body.length + 1 + k + 1 - size.toNat =
                  (body.drop (size.toNat - 2)).length + k by omega] at h
                obtain ⟨other, hs, hd⟩ := ih _ (by omega) h rfl
                refine ⟨_, hs.whole hkind hfits.1 hwhole hshift, ?_⟩
                rw [hd]
                by_cases ho : kind = TCPOPT_TIMESTAMP ∨ kind = TCPOPT_WINDOW <;>
                  cases other <;> simp [ho]
              · obtain ⟨j, hj⟩ : ∃ j, size.toNat = body.length + 2 + (j + 1) :=
                  ⟨size.toNat - (body.length + 3), by omega⟩
                by_cases hlast : j + 1 = k
                · subst hlast
                  rw [show body.length + 1 + (j + 1) + 1 - size.toNat = 0 by omega,
                    optionLoop] at h
                  cases h
                  have hbyte : size = BitVec.ofNat 8 (body.length + 2 + (j + 1)) := by
                    rw [← hj, BitVec.ofNat_toNat, BitVec.setWidth_eq]
                  refine ⟨!decide (kind = TCPOPT_TIMESTAMP ∨ kind = TCPOPT_WINDOW), ?_, ?_⟩
                  · rw [hbyte]
                    exact .last hkind (Nat.succ_pos j) (by omega) hshift
                  · by_cases hignored : kind = TCPOPT_TIMESTAMP ∨ kind = TCPOPT_WINDOW <;>
                      simp [hignored]
                · obtain ⟨m, hm⟩ : ∃ m, body.length + 1 + k + 1 - size.toNat = m + 1 :=
                    ⟨body.length + 1 + k - size.toNat, by omega⟩
                  rw [hm, optionLoop_beyond body (by omega)] at h
                  cases h

/-- The options are told apart as the grammar does, and nothing behind the header is read. -/
def Classifies (h : TcpHeader) (options : List TcpOption) (rest : List Byte) (tcpTotLen : ℤ) : Prop :=
  ∀ front : List Byte, ∃ winScale,
    isDropTcpAck (front ++ h.bytes) front.length tcpTotLen = .ok
      (if (h.len : ℤ) < tcpTotLen then 0
        else if (∀ o ∈ options, o.Plain) ∧ ¬ Malformed rest then 1 else 2, winScale)

/-- The list is walked as the grammar tells: a window scale option at its end has its shift, behind
`TCPOPT_EOL` or a malformed option the walk recovers, and then an option that is not ignored is met
exactly if the list has one that is not plain or is malformed. -/
structure Walkable (options : List TcpOption) (rest : List Byte) : Prop where
  shift : rest = [] → ∀ o, options.getLast? = some o → o.HasShift
  told : ∃ other, Recovers 0 rest other ∧
    (((∃ o ∈ options, ¬ o.Ignored) ∨ other = true) ↔
      ((∃ o ∈ options, ¬ o.Plain) ∨ Malformed rest))

theorem optionBytes_eq_nil {options : List TcpOption} (h : optionBytes options = []) :
    options = [] := by
  cases options with
  | nil => rfl
  | cons o options =>
    have hnil := (List.append_eq_nil_iff.mp h).1
    cases o <;> cases hnil

/-- The walk over the options and what is behind them. -/
theorem optionLoop_iff (options : List TcpOption) (rest : List Byte) (drop winScale d : ℕ) :
    (∃ winScale', optionLoop (optionBytes options ++ rest) 0 (optionBytes options ++ rest).length drop
        winScale = .ok (d, winScale')) ↔
      (rest = [] → ∀ o, options.getLast? = some o → o.HasShift) ∧
        ∃ other, Recovers 0 rest other ∧
          d = if (∃ o ∈ options, ¬ o.Ignored) ∨ other = true then 2 else drop := by
  induction options generalizing drop winScale with
  | nil =>
    have hnone : ∀ other : Bool, ((∃ o ∈ ([] : List TcpOption), ¬ o.Ignored) ∨ other = true) ↔
        other = true := by simp
    simp only [hnone]
    constructor
    · rintro ⟨winScale', hwalk⟩
      exact ⟨fun _ o ho => (by cases ho), recovers_of_optionLoop (k := 0) hwalk⟩
    · rintro ⟨-, other, hrecovers, rfl⟩
      exact optionLoop_of_recovers hrecovers drop winScale
  | cons o options ih =>
    have hbytes : optionBytes (o :: options) ++ rest = o.bytes ++ (optionBytes options ++ rest) := by
      rw [optionBytes, List.flatMap_cons, List.append_assoc]
      rfl
    rw [hbytes, List.length_append]
    by_cases hshift : optionBytes options ++ rest ≠ [] ∨ o.HasShift
    · obtain ⟨winScale₁, hturn⟩ :=
        optionLoop_whole hshift (optionBytes options ++ rest).length drop winScale
      have hlast : (rest = [] → ∀ p, (o :: options).getLast? = some p → p.HasShift) ↔
          (rest = [] → ∀ p, options.getLast? = some p → p.HasShift) := by
        refine forall_congr' fun hnil => ?_
        cases options with
        | nil =>
          have ho : o.HasShift := by
            rcases hshift with hne | ho
            · exact absurd hnil hne
            · exact ho
          refine ⟨fun _ p hp => (by cases hp), fun _ p hp => ?_⟩
          cases hp
          exact ho
        | cons p options => rw [List.getLast?_cons_cons]
      have hdrop : ∀ other : Bool,
          (if (∃ p ∈ options, ¬ p.Ignored) ∨ other = true then 2 else optionDrop drop o) =
            if (∃ p ∈ o :: options, ¬ p.Ignored) ∨ other = true then 2 else drop := by
        intro other
        rw [optionDrop]
        by_cases ho : o.Ignored <;> simp [ho]
      rw [hturn, ih, hlast]
      simp only [hdrop]
    · obtain ⟨hnil, ho⟩ := not_or.mp hshift
      obtain ⟨hoptions, rfl⟩ := List.append_eq_nil_iff.mp (not_not.mp hnil)
      obtain rfl := optionBytes_eq_nil hoptions
      refine ⟨?_, fun h => absurd (h.1 rfl o rfl) ho⟩
      rintro ⟨winScale', hwalk⟩
      cases o with
      | nop => exact absurd True.intro ho
      | sized kind body hkind hbody =>
        obtain ⟨rfl, rfl⟩ := Classical.not_imp.mp ho |>.imp id not_not.mp
        rw [TcpOption.bytes, optionBytes, List.flatMap_nil, List.append_nil, List.append_nil] at hwalk
        rw [show [TCPOPT_WINDOW, BitVec.ofNat 8 (([] : List Byte).length + 2)].length +
          ([] : List Byte).length = 1 + 1 from rfl, optionLoop_no_shift (by decide)] at hwalk
        cases hwalk

/-- Nothing behind the header is read and the options are told apart as they are exactly for data
behind the header and for the lists that can be walked. -/
theorem option_walk_iff (h : TcpHeader) {options : List TcpOption} {rest : List Byte}
    (hoptions : h.options = optionBytes options ++ rest) (tcpTotLen : ℤ) :
    Classifies h options rest tcpTotLen ↔
      (h.len : ℤ) < tcpTotLen ∨ Walkable options rest := by
  have hlen : (h.fixed[12].extractLsb' 4 4).toNat * 4 = (h.len : ℤ) := by
    exact_mod_cast h.doff
  have hrun : ∀ front : List Byte, isDropTcpAck (front ++ h.bytes) front.length tcpTotLen =
      if (h.len : ℤ) < tcpTotLen then .ok (0, 0)
      else optionLoop h.options 0 h.options.length 1 0 := by
    intro front
    have hdoff := byteAt_doff h front []
    have hdrop := drop_fixed h front []
    rw [List.append_nil] at hdoff hdrop
    rw [isDropTcpAck, hdoff, ok_bind, hdrop, hlen, h.doff, Nat.add_sub_cancel_left, List.append_nil]
  have htold : ∀ other : Bool,
      ((if (∀ o ∈ options, o.Plain) ∧ ¬ Malformed rest then 1 else 2 : ℕ) =
        if (∃ o ∈ options, ¬ o.Ignored) ∨ other = true then 2 else 1) ↔
      (((∃ o ∈ options, ¬ o.Ignored) ∨ other = true) ↔
        ((∃ o ∈ options, ¬ o.Plain) ∨ Malformed rest)) := by
    intro other
    have hplain : ((∀ o ∈ options, o.Plain) ∧ ¬ Malformed rest) ↔
        ¬ ((∃ o ∈ options, ¬ o.Plain) ∨ Malformed rest) := by
      simp [not_or]
    rw [if_congr hplain rfl rfl]
    by_cases hother : (∃ o ∈ options, ¬ o.Ignored) ∨ other = true <;>
      by_cases hbad : (∃ o ∈ options, ¬ o.Plain) ∨ Malformed rest <;> simp [hother, hbad]
  simp only [Classifies, hrun]
  by_cases hdata : (h.len : ℤ) < tcpTotLen
  · simp only [if_pos hdata]
    exact ⟨fun _ => .inl hdata, fun _ _ => ⟨0, rfl⟩⟩
  · simp only [if_neg hdata, forall_const, hoptions]
    rw [optionLoop_iff, or_iff_right hdata]
    constructor
    · rintro ⟨hshift, other, hrecovers, htell⟩
      exact ⟨hshift, other, hrecovers, (htold other).mp htell⟩
    · rintro ⟨hshift, other, hrecovers, htell⟩
      exact ⟨hshift, other, hrecovers, (htold other).mpr htell⟩

/-- A header of six words whose options are four bytes of `TCPOPT_EOL`. -/
def endHeader : TcpHeader :=
  ⟨#v[0, 80, 4, 210, 0, 0, 0, 1, 0, 0, 0, 2, 0x60, 0x10, 1, 0, 0, 0, 0, 0],
    [0, 0, 0, 0], by decide⟩

/-- Behind the end of the option list the walk goes on, and reads behind the header. -/
theorem end_of_list_passed : ¬ Classifies endHeader [] [0, 0, 0, 0] 24 ∧
    isDropTcpAck endHeader.bytes 0 24 = .error .frameRead := by
  refine ⟨fun h => ?_, by decide⟩
  obtain ⟨winScale, hok⟩ := h []
  cases (show isDropTcpAck endHeader.bytes 0 24 = .error .frameRead by decide).symm.trans hok

theorem option_walk_iff_timestamp : Classifies timestampHeader timestampOptions [] 32 ↔
    (timestampHeader.len : ℤ) < 32 ∨ Walkable timestampOptions [] :=
  option_walk_iff timestampHeader (show _ = optionBytes timestampOptions ++ [] from rfl) 32

end Uwe5631.TcpAck
