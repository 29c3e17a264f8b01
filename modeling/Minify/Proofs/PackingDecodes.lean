import Mathlib
import Minify.Pack
import Minify.Proofs.ByteSize
import Minify.Proofs.FirstSeen
import Minify.Proofs.LexerRun
import Minify.Proofs.PayloadText
import Minify.Proofs.PlainWords

/-!
Packing with a dictionary never fails on words that can be told apart, and unpacking gives the text
back. The plain pattern of words parts every text, so with it packing fails on no script that can be
laid out.
-/

namespace Minify

open Text Payload Encoder
open WordPattern (Piece)

/-- No machine holds a longer text. -/
def Text.Fits (s : String) : Prop := s.utf8ByteSize < UInt64.size

namespace Encoder

/-- The text is packed, and what comes out unpacks to it. -/
def Decodes (text : String) (result : Except EncodingError String) : Prop :=
  ∃ packed, result = .ok packed ∧ unpack packed = .ok text

variable {radix : Nat} {text : String} {pieces : List Piece}

lemma length_matched_le (h : ∀ w, .word w ∈ pieces → w ≠ []) :
    (matched pieces).length ≤ (pieces.flatMap Piece.chars).length := by
  induction pieces with
  | nil => simp [matched]
  | cons p pieces ih =>
    have ih := ih fun w hw => h w (List.mem_cons_of_mem p hw)
    rw [List.flatMap_cons, List.length_append]
    cases p with
    | other c =>
      have : matched (.other c :: pieces) = matched pieces := by simp [matched]
      rw [this]
      omega
    | word w =>
      have hw := List.length_pos_iff.mpr (h w (by simp))
      have : matched (.word w :: pieces) = w :: matched pieces := by simp [matched]
      rw [this, List.length_cons]
      simp only [Piece.chars_word]
      omega

lemma length_wordList_lt (hfit : Text.Fits text) (hc : Cuts text.toList pieces) :
    (wordList pieces).length < UInt64.size := by
  have hs := firstSeen_eraseDups (matched pieces)
  have h1 : (wordList pieces).length ≤ (matched pieces).length :=
    (List.subperm_of_subset hs.nodup fun w hw => (hs.mem w).mp hw).length_le
  have h2 := length_matched_le hc.nonempty
  have h3 := length_le_byteSize text.toList
  rw [hc.text] at h2
  rw [Text.Fits, utf8ByteSize_eq] at hfit
  omega

lemma mem_wordList {w : List Char} : w ∈ wordList pieces ↔ .word w ∈ pieces := by
  rw [wordList, List.mem_eraseDups, mem_matched]

lemma unpack_pack (hr : isRadix radix = true) (hfit : Text.Fits text)
    (hc : Cuts text.toList pieces) (hp : Parted pieces) :
    unpack (pack radix (payload radix (wordList pieces) pieces) (wordList pieces).length
      (entries radix (wordList pieces))) = .ok text := by
  have hnum : Numeral.IsRadix radix := by
    simpa [isRadix, Numeral.IsRadix, Numeral.maxRadix] using hr
  have hlt := length_wordList_lt hfit hc
  obtain ⟨words, hwords⟩ : ∃ words, words = wordList pieces := ⟨_, rfl⟩
  rw [← hwords] at hlt ⊢
  have hmem : ∀ w, w ∈ words ↔ .word w ∈ pieces := fun w => by rw [hwords, mem_wordList]
  have hbar : ∀ w ∈ entries radix words, delimiter ∉ w := by
    intro e he
    obtain ⟨w, hw, rfl⟩ := List.mem_map.mp he
    split
    · simp
    · exact hp.noBar w ((hmem w).mp hw)
  have hlen : (entries radix words).length = words.length := by simp [entries]
  obtain ⟨back, hparts, hback⟩ := parts_pack (payload radix words pieces) hr hlt
    (fun _ => hlen) hbar
  have hcode : ∀ w, .word w ∈ pieces → code radix words w ≠ [] ∧
      (∀ c ∈ code radix words w, isWordChar c = true) ∧
        expandCode radix words.length back.toArray (code radix words w) = .ok w := by
    intro w hw
    have hw' : w ∈ words := (hmem w).mpr hw
    have hne : entries radix words ≠ [] := by
      intro h
      rw [h, List.length_nil] at hlen
      exact List.ne_nil_of_mem hw' (List.length_eq_zero_iff.mp hlen.symm)
    refine ⟨Numeral.digits_ne_nil _ _, fun c hc => Numeral.isWordChar_of_mem_digits hnum hc, ?_⟩
    rw [hback hne]
    exact expandCode_code hnum hw' (hc.nonempty w hw)
  have hexp := expandRuns_flatMap hp hcode
  rw [unpack, hparts]
  simp only [bind, Except.bind]
  rw [payload, hexp, hc.text]
  simp [pure, Except.pure]

lemma verdict_of_eq {r : Except EncodingError String} (packed : String) (h : r = .ok text) :
    verdict text packed r = .ok packed := by
  rw [h]
  exact if_pos (beq_self_eq_true text)

lemma checked_of_unpack {packed : String} (h : unpack packed = .ok text) :
    checked text packed = .ok packed := verdict_of_eq packed h

/-- **Packing decodes**: pieces whose words can be told apart are packed, and unpack to the text. -/
theorem encodePieces_decodes (hr : isRadix radix = true) (hfit : Text.Fits text)
    (hc : Cuts text.toList pieces) (hp : Parted pieces) :
    Decodes text (encodePieces radix pieces text) := by
  have hfind : (wordList pieces).find? (fun w => w.contains delimiter) = none := by
    rw [List.find?_eq_none]
    intro w hw
    simpa using hp.noBar w (mem_wordList.mp hw)
  have hun := unpack_pack hr hfit hc hp
  refine ⟨_, ?_, hun⟩
  unfold encodePieces
  simp only [hfind]
  exact checked_of_unpack hun

end Encoder

/-! ### Scripts -/

/-- A script laid out, before it may be packed with a dictionary. -/
def layOut (protectedNames : ProtectedNames) (o : Options) (source : String) :
    Except PackError Compacted := do
  let tokens ← (tokenize source).mapError .lex
  let replaced ← (o.replacements (protectedNames.add o.protectedNames) tokens).mapError .scope
  return compact tokens replaced

variable {protectedNames : ProtectedNames} {o : Options} {source : String}

lemma layOut_base62 (b : Bool) :
    layOut protectedNames { o with base62 := b } source = layOut protectedNames o source := by
  unfold layOut Options.replacements Options.privateNames
  rfl

/-- The files that the options know. -/
def Options.files (o : Options) : List SourceMap.File :=
  o.sourceFiles.entries.map fun e => ⟨e.1, e.2.toNat⟩

/-- Without a dictionary a script is packed as it is laid out, with a map of where it lies. -/
lemma pack_eq_map_layOut (protectedNames : ProtectedNames) (source : String)
    (h : o.base62 = false) :
    pack protectedNames o source = (layOut protectedNames o source).map fun c =>
      ⟨c.code, .build source c.code o.files c.mappings o.outputFile o.lineOffset.toNat⟩ := by
  simp only [pack, layOut, Options.encoder, h]
  cases (tokenize source) with
  | error e => rfl
  | ok tokens =>
    simp only [Except.mapError, bind, Except.bind, pure, Except.pure]
    cases o.replacements (protectedNames.add o.protectedNames) tokens <;> rfl

/-- Without a dictionary a script is packed exactly when it can be laid out. -/
lemma pack_plain (protectedNames : ProtectedNames) (source : String) (h : o.base62 = false) :
    (pack protectedNames o source).map Packed.code
      = (layOut protectedNames o source).map Compacted.code := by
  rw [pack_eq_map_layOut protectedNames source h]
  cases layOut protectedNames o source <;> rfl

lemma encoder_plainWords (h62 : o.base62 = true) (hw : o.wordPattern = "\\w+")
    (hr : isRadix o.radix.toNat = true) :
    o.encoder = .ok (some ⟨o.radix.toNat, WordPattern.plainWords⟩) := by
  simp [Options.encoder, h62, hw, Encoder.ofPattern, hr, WordPattern.ofString?_plainWords,
    Except.map]

lemma pack_dictionary (protectedNames : ProtectedNames) (source : String) {e : Encoder}
    (h : o.encoder = .ok (some e)) :
    (pack protectedNames o source).map Packed.code
      = (layOut protectedNames o source).bind fun c =>
          (e.encode c.code).mapError PackError.encoding := by
  simp only [pack, layOut, h]
  cases (tokenize source) with
  | error e => rfl
  | ok tokens =>
    simp only [Except.mapError, bind, Except.bind, pure, Except.pure]
    cases o.replacements (protectedNames.add o.protectedNames) tokens with
    | error e => rfl
    | ok replaced =>
      dsimp only
      cases e.encode (compact tokens replaced).code <;> rfl

/-- Two runs that succeed on the same scripts, where unpacking the one's code gives the other's. -/
def UnpacksTo (packed plain : Except PackError Packed) : Prop :=
  ((∃ r, packed = .ok r) ↔ ∃ r, plain = .ok r) ∧
    ∀ r s, packed = .ok r → plain = .ok s → unpack r.code = .ok s.code

lemma pack_unpacksTo (hw : o.wordPattern = "\\w+") (hr : isRadix o.radix.toNat = true)
    (hfit : ∀ r, pack protectedNames { o with base62 := false } source = .ok r →
      Text.Fits r.code) :
    UnpacksTo (pack protectedNames { o with base62 := true } source)
      (pack protectedNames { o with base62 := false } source) := by
  have hplain := pack_plain protectedNames source (o := { o with base62 := false }) rfl
  have hdict := pack_dictionary protectedNames source
    (encoder_plainWords (o := { o with base62 := true }) rfl hw hr)
  rw [layOut_base62] at hplain hdict
  cases hl : layOut protectedNames o source with
  | error e =>
    -- neither run gets past the layout
    rw [hl] at hplain hdict
    cases hp : pack protectedNames { o with base62 := false } source with
    | ok r => rw [hp] at hplain; simp [Except.map] at hplain
    | error e' =>
      cases hd : pack protectedNames { o with base62 := true } source with
      | ok r => rw [hd] at hdict; simp [Except.map, Except.bind] at hdict
      | error e'' => exact ⟨by simp, by simp⟩
  | ok c =>
    rw [hl] at hplain hdict
    cases hp : pack protectedNames { o with base62 := false } source with
    | error e => rw [hp] at hplain; simp [Except.map] at hplain
    | ok r =>
      rw [hp] at hplain
      have hcode : r.code = c.code := by simpa [Except.map] using hplain
      have hc : Text.Fits c.code := hcode ▸ hfit r hp
      obtain ⟨packed, henc, hun⟩ := Encoder.encodePieces_decodes hr hc
        (WordPattern.cuts_pieces WordPattern.plainWords _) (WordPattern.parted_plainWords _)
      cases hd : pack protectedNames { o with base62 := true } source with
      | error e =>
        rw [hd] at hdict
        simp [Except.map, Except.bind, Except.mapError, Encoder.encode, henc] at hdict
      | ok s =>
        rw [hd] at hdict
        have hs : s.code = packed := by
          simpa [Except.map, Except.bind, Except.mapError, Encoder.encode, henc] using hdict
        refine ⟨by simp, fun r' s' hr' hs' => ?_⟩
        cases hr'
        cases hs'
        rw [hs, hun, hcode]

/-- **Dictionary packing.** In every radix from 2 to 62, a text is packed and unpacks to itself
when the words found in it hold all its word characters, never touch and hold no bar, however they
were found; the dictionary lists the words once each, in the order of their first places. The plain
pattern finds such words in every text. So with it a script is packed with a dictionary exactly when
it is packed without one, and unpacks to what it is without one. -/
theorem dictionary_packing (radix : Nat) (hr : isRadix radix = true) :
    (∀ text pieces, Text.Fits text → Cuts text.toList pieces → Parted pieces →
      Encoder.Decodes text (encodePieces radix pieces text) ∧
        FirstSeen (matched pieces) (wordList pieces)) ∧
    (∀ (words : WordPattern) text, Text.Fits text → Parted (words.pieces text.toList) →
      Encoder.Decodes text (Encoder.encode ⟨radix, words⟩ text) ∧
        FirstSeen ((matched (words.pieces text.toList)).map String.ofList)
          (Encoder.dictionary ⟨radix, words⟩ text)) ∧
    (WordPattern.ofString? "\\w+" = some WordPattern.plainWords ∧
      ∀ cs, Parted (WordPattern.plainWords.pieces cs)) ∧
    (∀ protectedNames (o : Options) source, o.wordPattern = "\\w+" → o.radix.toNat = radix →
      (∀ r, pack protectedNames { o with base62 := false } source = .ok r →
        Text.Fits r.code) →
      UnpacksTo (pack protectedNames { o with base62 := true } source)
        (pack protectedNames { o with base62 := false } source)) := by
  refine ⟨fun text pieces hfit hc hp => ?_, fun words text hfit hp => ?_,
    ⟨WordPattern.ofString?_plainWords, WordPattern.parted_plainWords⟩,
    fun protectedNames o source hw ho hfit => ?_⟩
  · exact ⟨Encoder.encodePieces_decodes hr hfit hc hp, firstSeen_eraseDups _⟩
  · have hc := WordPattern.cuts_pieces words text.toList
    exact ⟨Encoder.encodePieces_decodes hr hfit hc hp,
      (firstSeen_eraseDups _).map fun _ _ => String.ofList_injective⟩
  · subst ho
    exact pack_unpacksTo hw hr hfit

set_option maxRecDepth 20000 in
/-- A word that is its own numeral, one with an escape after it, and a script of the default
options. -/
theorem dictionary_packing_at_62 :
    isRadix 62 = true ∧
    (Text.Fits "0 a\\n|0" ∧ Parted (WordPattern.plainWords.pieces "0 a\\n|0".toList) ∧
      Encoder.Decodes "0 a\\n|0" (Encoder.encode ⟨62, WordPattern.plainWords⟩ "0 a\\n|0")) ∧
    UnpacksTo (pack .empty { base62 := true } "x = x ;") (pack .empty {} "x = x ;") := by
  have hfit : Text.Fits "0 a\\n|0" := by unfold Text.Fits; decide
  have hcode : (pack .empty {} "x = x ;").map Packed.code = .ok "x=x;" := by
    rw [pack, tokenize, tokens_eq_runFor]
    cbv
  have h := dictionary_packing 62 rfl
  refine ⟨rfl, ⟨hfit, h.2.2.1.2 _, (h.2.1 _ _ hfit (h.2.2.1.2 _)).1⟩,
    h.2.2.2 .empty {} "x = x ;" rfl rfl fun r hr => ?_⟩
  have hr' : r.code = "x=x;" := by
    change pack .empty {} "x = x ;" = .ok r at hr
    simpa [hr, Except.map] using hcode
  rw [hr']
  unfold Text.Fits
  decide

end Minify
