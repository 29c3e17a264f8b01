import Mathlib
import Minify.Proofs.LaidOut
import Minify.Proofs.WordOffsets

/-!
What a compacted script says, and where its chunks stand in it.

The chunks are the tokens that stay, in their order. Each starts where the text before it ends, the
gap in front of it counted, so the places of the chunks go up as long as no text is empty.
-/

namespace Minify

namespace Layout

variable {before : List Token} {lineBreak : Bool} {last : String} {rest : List (Token × String)}

/-- The tokens that stay in the layout after the significant tokens `before`, and what is written
for them. A semicolon is written as itself. It is left out when the next token that stays is a
closing brace, unless it is the empty body of a statement. -/
def written (before : List Token) : List (Token × String) → List (Token × String)
  | [] => []
  | (t, text) :: rest =>
    if t.isTrivia then
      if isConditional t then (t, t.text) :: written before rest else written before rest
    else if t.isPunct ";" then
      if !isBody before && beforeBrace rest then written (before ++ [t]) rest
      else (t, ";") :: written (before ++ [t]) rest
    else (t, text) :: written (before ++ [t]) rest

lemma map_entries : (entries before lineBreak last rest).map (fun e => (e.token, e.text))
    = written before rest := by
  induction rest generalizing before lineBreak last with
  | nil => rfl
  | cons e rest ih =>
    obtain ⟨t, text⟩ := e
    unfold entries written
    split
    · split
      · exact congrArg _ ih
      · exact ih
    · split
      · split
        · exact ih
        · exact congrArg _ ih
      · exact congrArg _ ih

/-- What is written is a token that stays, with its text in the list or as it is. -/
lemma of_mem_written : ∀ e ∈ written before rest,
    isKept e.1 = true ∧ ∃ text, (e.1, text) ∈ rest ∧ (e.2 = text ∨ e.2 = e.1.text) := by
  induction rest generalizing before with
  | nil => exact nofun
  | cons e rest ih =>
    obtain ⟨t, text⟩ := e
    have hrest (before : List Token) : ∀ e ∈ written before rest, isKept e.1 = true ∧
        ∃ text', (e.1, text') ∈ (t, text) :: rest ∧ (e.2 = text' ∨ e.2 = e.1.text) := by
      intro e he
      obtain ⟨hkept, text', hmem, htext⟩ := ih e he
      exact ⟨hkept, text', List.mem_cons_of_mem _ hmem, htext⟩
    have hself {text' : String} (hkept : isKept t = true) (htext : text' = text ∨ text' = t.text)
        (before : List Token) : ∀ e ∈ (t, text') :: written before rest, isKept e.1 = true ∧
          ∃ text', (e.1, text') ∈ (t, text) :: rest ∧ (e.2 = text' ∨ e.2 = e.1.text) :=
      List.forall_mem_cons.mpr ⟨⟨hkept, text, List.mem_cons_self, htext⟩, hrest before⟩
    unfold written
    split
    · split
      · rename_i hcond
        exact hself (by simp [isKept, hcond]) (.inr rfl) _
      · exact hrest _
    · rename_i htrivia
      have hkept : isKept t = true := by simp [isKept, htrivia]
      split
      · rename_i hsemi
        have htext : ";" = t.text := by simp_all [Token.isPunct]
        split
        · exact hrest _
        · exact hself hkept (.inr htext) _
      · exact hself hkept (.inl rfl) _

/-! ### Texts that are not empty -/

lemma text_ne_empty (h : ∀ e ∈ rest, e.1.text ≠ "" ∧ e.2 ≠ "") :
    ∀ e ∈ written before rest, e.2 ≠ "" := by
  induction rest generalizing before with
  | nil => exact nofun
  | cons e rest ih =>
    obtain ⟨t, text⟩ := e
    have hhead := h (t, text) List.mem_cons_self
    have hrest (before : List Token) : ∀ e ∈ written before rest, e.2 ≠ "" :=
      ih fun e he => h e (List.mem_cons_of_mem _ he)
    unfold written
    split
    · split
      · exact List.forall_mem_cons.mpr ⟨hhead.1, hrest _⟩
      · exact hrest _
    · split
      · split
        · exact hrest _
        · exact List.forall_mem_cons.mpr ⟨(by decide : ";" ≠ ""), hrest _⟩
      · exact List.forall_mem_cons.mpr ⟨hhead.2, hrest _⟩

lemma written_sublist (before : List Token) (rest : List (Token × String)) :
    ((written before rest).map Prod.fst).Sublist (rest.map Prod.fst) := by
  induction rest generalizing before with
  | nil => exact .refl _
  | cons e rest ih =>
    obtain ⟨t, text⟩ := e
    unfold written
    split
    · split
      · exact (ih before).cons_cons t
      · exact (ih before).cons t
    · split
      · split
        · exact (ih (before ++ [t])).cons t
        · exact (ih (before ++ [t])).cons_cons t
      · exact (ih (before ++ [t])).cons_cons t

lemma map_fst_newTexts (tokens : List Token) (r : Replacements) :
    (newTexts tokens r).map Prod.fst = tokens := by
  rw [newTexts, List.map_map]
  exact List.zipIdx_map_fst 0 tokens

lemma newTexts_ne_empty {tokens : List Token} {replacements : Replacements}
    (ht : ∀ t ∈ tokens, t.text ≠ "")
    (hr : ∀ (i : Nat) (text : String), replacements[i]? = some text → text ≠ "") :
    ∀ e ∈ newTexts tokens replacements, e.1.text ≠ "" ∧ e.2 ≠ "" := by
  intro e he
  obtain ⟨⟨t, i⟩, hmem, rfl⟩ := List.mem_map.mp he
  have htext := ht t (List.fst_mem_of_mem_zipIdx hmem)
  refine ⟨htext, ?_⟩
  dsimp only
  cases hnew : replacements[i]? with
  | none => exact htext
  | some text => exact hr i text hnew

/-! ### Nothing stands in front of the first chunk -/

lemma needsSpace_empty (text : String) : needsSpace "" text = false := rfl

/-- Only a semicolon may have been left out before the first chunk, and it ends no operand. -/
lemma gapBefore_first (h : ∀ p, before.getLast? = some p → p.isPunct ";" = true) (t : Token)
    (text : String) : gapBefore before lineBreak "" t text = .nothing := by
  have hend : ({ after before with lineBreak := lineBreak } : State).lineEnd t = .nothing := by
    have hprev : (after before).prev = before.getLast? := prev_after before
    unfold State.lineEnd
    dsimp only
    rw [hprev]
    cases hp : before.getLast? with
    | none => rfl
    | some p =>
      obtain ⟨hkind, htext⟩ : p.kind = .punctuator ∧ p.text = ";" := by
        simpa [Token.isPunct] using h p hp
      have hrestricted : p.isRestricted = false := by simp [Token.isRestricted, hkind]
      have hoperand : p.endsOperand = false := by simp [Token.endsOperand, hkind, htext]
      simp [hrestricted, hoperand]
  rw [gapBefore, hend]
  simp [State.write, needsSpace_empty]

lemma gap_of_mem_head (h : ∀ p, before.getLast? = some p → p.isPunct ";" = true) :
    ∀ e ∈ (entries before lineBreak "" rest).head?, e.gap = .nothing := by
  induction rest generalizing before lineBreak with
  | nil => exact nofun
  | cons e rest ih =>
    obtain ⟨t, text⟩ := e
    intro e he
    unfold entries at he
    split at he
    · split at he
      · cases he
        rfl
      · exact ih h e he
    · split at he
      · rename_i hsemi
        split at he
        · refine ih (fun p hp => ?_) e he
          rw [List.getLast?_concat] at hp
          cases hp
          exact hsemi
        · cases he
          rfl
      · cases he
        exact gapBefore_first h t text

/-! ### Places -/

def textOf (es : List Entry) : String := String.join (es.map fun e => e.gap.text ++ e.text)

lemma code_map_chunk (es : List Entry) : code (es.map Entry.chunk) = textOf es := by
  induction es with
  | nil => rfl
  | cons e es ih =>
    unfold code textOf at ih ⊢
    rw [List.map_cons, List.flatMap_cons, List.map_cons, String.join_cons, ← ih,
      String.join_append, String.join_cons, String.join_cons]
    simp [Entry.chunk]

/-- A chunk starts after the text before it and the gap in front of it. -/
lemma getElem?_mappings (pos : Nat) (es : List Entry) (i : Nat) :
    (mappings pos (es.map Entry.chunk))[i]? = (es[i]?).map fun e =>
      ⟨pos + (textOf (es.take i) ++ e.gap.text).utf8ByteSize, e.token.start⟩ := by
  induction es generalizing pos i with
  | nil => rfl
  | cons e es ih =>
    rw [List.map_cons, mappings]
    cases i with
    | zero => simp [textOf, Entry.chunk]
    | succ i =>
      rw [List.getElem?_cons_succ, ih, List.getElem?_cons_succ, List.take_succ_cons]
      congr 1
      funext x
      simp only [textOf, List.map_cons, String.join_cons, String.utf8ByteSize_append, Entry.chunk]
      congr 1
      omega

lemma length_mappings (pos : Nat) (cs : List Chunk) : (mappings pos cs).length = cs.length := by
  induction cs generalizing pos with
  | nil => rfl
  | cons c cs ih => rw [mappings, List.length_cons, List.length_cons, ih]

lemma le_of_mem_mappings {pos : Nat} {cs : List Chunk} {m : Mapping} (h : m ∈ mappings pos cs) :
    pos ≤ m.generated := by
  induction cs generalizing pos with
  | nil => cases h
  | cons c cs ih =>
    rcases List.mem_cons.mp h with rfl | h
    · exact Nat.le_add_right _ _
    · have := ih h
      omega

lemma mappings_pairwise {cs : List Chunk} (h : ∀ c ∈ cs, c.text ≠ "") (pos : Nat) :
    (mappings pos cs).Pairwise fun a b => a.generated < b.generated := by
  induction cs generalizing pos with
  | nil => exact .nil
  | cons c cs ih =>
    obtain ⟨hc, hcs⟩ := List.forall_mem_cons.mp h
    refine List.pairwise_cons.mpr ⟨fun m hm => ?_, ih hcs _⟩
    have hle := le_of_mem_mappings hm
    have hpos : 0 < c.text.utf8ByteSize :=
      Nat.pos_of_ne_zero fun hz => hc (String.utf8ByteSize_eq_zero_iff.mp hz)
    dsimp only
    omega

/-- A compacted script consists of the tokens that are kept, with a gap in front of each but the
first. It has one mapping for each of them, from the byte where it starts in the result to the byte
where its token starts in the script. -/
structure Placed (gaps : List Gap) (kept : List (Token × String)) (c : Compacted) : Prop where
  length : gaps.length = kept.length
  first : ∀ g ∈ gaps.head?, g = .nothing
  code : c.code = String.join (List.zipWith (fun g e => g.text ++ e.2) gaps kept)
  count : c.mappings.length = kept.length
  mapping : ∀ (i : Nat) (g : Gap) (e : Token × String), gaps[i]? = some g → kept[i]? = some e →
    c.mappings[i]? = some
      ⟨(String.join (List.zipWith (fun g e => g.text ++ e.2) (gaps.take i) (kept.take i))
        ++ g.text).utf8ByteSize, e.1.start⟩
  increasing : c.mappings.Pairwise fun a b => a.generated < b.generated

/-- A text consists of the tokens that are kept, with a gap in front of each but the first. -/
structure Spaced (gaps : List Gap) (kept : List (Token × String)) (text : String) : Prop where
  length : gaps.length = kept.length
  first : ∀ g ∈ gaps.head?, g = .nothing
  text : text = String.join (List.zipWith (fun g e => g.text ++ e.2) gaps kept)

/-- A mapping leads to the start of a token that stays. -/
lemma Placed.exists_token {gaps : List Gap} {kept : List (Token × String)} {c : Compacted}
    (h : Placed gaps kept c) {x : Mapping} (hx : x ∈ c.mappings) :
    ∃ e ∈ kept, x.original = e.1.start := by
  obtain ⟨i, hi⟩ := List.mem_iff_getElem?.mp hx
  have hlt : i < kept.length := h.count ▸ (List.getElem?_eq_some_iff.mp hi).1
  obtain ⟨g, hg⟩ : ∃ g, gaps[i]? = some g := ⟨_, List.getElem?_eq_getElem (h.length ▸ hlt)⟩
  have hmap := h.mapping i g _ hg (List.getElem?_eq_getElem hlt)
  rw [hi] at hmap
  cases hmap
  exact ⟨_, List.getElem_mem hlt, rfl⟩

lemma byteSize_take_le {texts : List String} {i : Nat} {text : String} (h : texts[i]? = some text) :
    (String.join (texts.take i)).utf8ByteSize + text.utf8ByteSize
      ≤ (String.join texts).utf8ByteSize := by
  induction texts generalizing i with
  | nil => cases h
  | cons t texts ih =>
    rw [String.join_cons, String.utf8ByteSize_append]
    cases i with
    | zero =>
      cases h
      simp
    | succ i =>
      have := ih h
      rw [List.take_succ_cons, String.join_cons, String.utf8ByteSize_append]
      omega

/-- Where the places in the text are words, so is what a mapping says. -/
lemma Placed.inWords {gaps : List Gap} {kept : List (Token × String)} {c : Compacted}
    (h : Placed gaps kept c) (hfit : Text.FitsWord c.code)
    (hstart : ∀ e ∈ kept, e.1.start < UInt32.size) : ∀ m ∈ c.mappings, m.InWords := by
  intro m hm
  obtain ⟨i, hi⟩ := List.mem_iff_getElem?.mp hm
  have hlt : i < kept.length := h.count ▸ (List.getElem?_eq_some_iff.mp hi).1
  have he := List.getElem?_eq_getElem hlt
  obtain ⟨g, hg⟩ : ∃ g, gaps[i]? = some g := ⟨_, List.getElem?_eq_getElem (h.length ▸ hlt)⟩
  have hmap := h.mapping i g _ hg he
  rw [hi] at hmap
  cases hmap
  refine ⟨?_, hstart _ (List.getElem_mem hlt)⟩
  have hpiece : (List.zipWith (fun (g : Gap) (e : Token × String) => g.text ++ e.2) gaps kept)[i]?
      = some (g.text ++ kept[i].2) := by
    rw [List.getElem?_zipWith, hg, he]
  have hle := byteSize_take_le hpiece
  rw [Text.FitsWord, h.code] at hfit
  rw [List.take_zipWith, String.utf8ByteSize_append] at hle
  rw [String.utf8ByteSize_append]
  dsimp only
  omega

/-- Of what is written, no two pieces begin at one place. -/
lemma Placed.eq_of_generated {gaps : List Gap} {kept : List (Token × String)} {c : Compacted}
    (h : Placed gaps kept c) {x y : Mapping} (hx : x ∈ c.mappings) (hy : y ∈ c.mappings)
    (he : x.generated = y.generated) : x = y :=
  List.inj_on_of_nodup_map (List.pairwise_map.mpr (h.increasing.imp Nat.ne_of_lt)) hx hy he

lemma zipWith_entries (es : List Entry) :
    List.zipWith (fun (g : Gap) (e : Token × String) => g.text ++ e.2) (es.map Entry.gap)
      (es.map fun e => (e.token, e.text)) = es.map fun e => e.gap.text ++ e.text := by
  rw [List.zipWith_map, List.zipWith_self]

/-- Entries that are not empty, the first with nothing in front of it, stand in their places. -/
lemma placed_chunks {es : List Entry} (hfirst : ∀ e ∈ es.head?, e.gap = .nothing)
    (hne : ∀ e ∈ es, e.text ≠ "") :
    Placed (es.map Entry.gap) (es.map fun e => (e.token, e.text))
      ⟨code (es.map Entry.chunk), mappings 0 (es.map Entry.chunk)⟩ := by
  refine ⟨?_, fun g hg => ?_, ?_, ?_, fun i g e hg he => ?_, ?_⟩
  · rw [List.length_map, List.length_map]
  · rw [List.head?_map] at hg
    obtain ⟨e, he, rfl⟩ := Option.map_eq_some_iff.mp hg
    exact hfirst e he
  · rw [zipWith_entries]
    exact code_map_chunk es
  · rw [length_mappings, List.length_map, List.length_map]
  · rw [List.getElem?_map] at he hg
    obtain ⟨x, hx, rfl⟩ := Option.map_eq_some_iff.mp he
    rw [hx] at hg
    cases hg
    rw [← List.map_take, ← List.map_take, zipWith_entries, getElem?_mappings, hx, Option.map_some,
      Nat.zero_add]
    rfl
  · refine mappings_pairwise (fun c hc => ?_) 0
    obtain ⟨e, he, rfl⟩ := List.mem_map.mp hc
    exact hne e he

lemma exists_placed {tokens : List Token} {replacements : Replacements}
    (ht : ∀ t ∈ tokens, t.text ≠ "")
    (hr : ∀ (i : Nat) (text : String), replacements[i]? = some text → text ≠ "") :
    ∃ gaps, Placed gaps (written [] (newTexts tokens replacements))
      (compact tokens replacements) := by
  obtain ⟨es, hes⟩ : ∃ es, es = entries [] false "" (newTexts tokens replacements) := ⟨_, rfl⟩
  have hkept : written [] (newTexts tokens replacements)
      = es.map fun e => (e.token, e.text) := by rw [hes, map_entries]
  have hcompact : compact tokens replacements
      = ⟨code (es.map Entry.chunk), mappings 0 (es.map Entry.chunk)⟩ := by
    rw [hes, ← chunks_eq_entries]
    rfl
  rw [hkept, hcompact]
  refine ⟨_, placed_chunks (fun e he => ?_) fun e he => ?_⟩
  · rw [hes] at he
    exact gap_of_mem_head (fun _ h => by cases h) e he
  · have hmem : (e.token, e.text) ∈ written [] (newTexts tokens replacements) := by
      rw [hkept]
      exact List.mem_map_of_mem he
    exact text_ne_empty (newTexts_ne_empty ht hr) _ hmem

end Layout

open Layout

/-- **What compacting writes**, when neither the tokens nor the new texts are empty: the tokens that
are kept with a gap in front of each, and, as long as places in the result are words of 32 bits,
where each of them starts there. -/
theorem compact_exact {tokens : List Token} {replacements : Replacements}
    (ht : ∀ t ∈ tokens, t.text ≠ "")
    (hr : ∀ (i : Nat) (text : String), replacements[i]? = some text → text ≠ "") :
    ∃ gaps, Spaced gaps (written [] (newTexts tokens replacements))
        (compact tokens replacements).code ∧
      (Text.FitsWord (compact tokens replacements).code →
        (∀ t ∈ tokens, t.start < UInt32.size) →
        Placed gaps (written [] (newTexts tokens replacements)) (compact tokens replacements) ∧
          ∀ m ∈ (compact tokens replacements).mappings, m.InWords) := by
  obtain ⟨gaps, hplaced⟩ := exists_placed ht hr
  refine ⟨gaps, ⟨hplaced.length, hplaced.first, hplaced.code⟩, fun hfit hstart =>
    ⟨hplaced, hplaced.inWords hfit fun e he => hstart e.1 ?_⟩⟩
  have hmem := (written_sublist [] (newTexts tokens replacements)).subset (List.mem_map_of_mem he)
  rwa [map_fst_newTexts] at hmem

set_option maxRecDepth 20000 in
/-- Of the three semicolons of `\x7bif(x);y;return\nvar old;\x7d`, the empty body of the statement
and the one between statements stay, the one before the brace goes, and one is put in. -/
theorem compact_exact_semicolons :
    let tokens : List Token := [
      ⟨.punctuator, "\x7b", 0⟩, ⟨.keyword .kwIf, "if", 1⟩, ⟨.punctuator, "(", 3⟩,
      ⟨.identifier, "x", 4⟩, ⟨.punctuator, ")", 5⟩, ⟨.punctuator, ";", 6⟩,
      ⟨.identifier, "y", 7⟩, ⟨.punctuator, ";", 8⟩, ⟨.keyword .kwReturn, "return", 9⟩,
      ⟨.lineBreak, "\n", 15⟩, ⟨.keyword .kwVar, "var", 16⟩, ⟨.blank, " ", 19⟩,
      ⟨.identifier, "old", 20⟩, ⟨.punctuator, ";", 23⟩, ⟨.punctuator, "\x7d", 24⟩]
    let replacements : Replacements := Std.TreeMap.empty.insert 12 "a"
    let c : Compacted := ⟨"\x7bif(x);y;return;var a\x7d", [⟨0, 0⟩, ⟨1, 1⟩, ⟨3, 3⟩, ⟨4, 4⟩,
      ⟨5, 5⟩, ⟨6, 6⟩, ⟨7, 7⟩, ⟨8, 8⟩, ⟨9, 9⟩, ⟨16, 16⟩, ⟨20, 20⟩, ⟨21, 24⟩]⟩
    (∀ t ∈ tokens, t.text ≠ "") ∧
      (∀ (i : Nat) (text : String), replacements[i]? = some text → text ≠ "") ∧
      compact tokens replacements = c ∧ Text.FitsWord c.code ∧
      (∀ t ∈ tokens, t.start < UInt32.size) ∧
      ∃ gaps, Placed gaps (written [] (newTexts tokens replacements)) c ∧
        ∀ m ∈ c.mappings, m.InWords := by
  intro tokens replacements c
  have ht : ∀ t ∈ tokens, t.text ≠ "" := by decide
  have hr : ∀ (i : Nat) (text : String), replacements[i]? = some text → text ≠ "" := by
    intro i text h
    rw [Std.TreeMap.getElem?_insert] at h
    split at h
    · cases h
      decide
    · simp at h
  have hc : compact tokens replacements = c := by decide +kernel
  have hfit : Text.FitsWord c.code := by
    unfold Text.FitsWord
    decide
  have hstart : ∀ t ∈ tokens, t.start < UInt32.size := by decide
  obtain ⟨gaps, -, hplaced⟩ := compact_exact ht hr
  rw [hc] at hplaced
  exact ⟨ht, hr, hc, hfit, hstart, gaps, hplaced hfit hstart⟩

end Minify
