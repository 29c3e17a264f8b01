import Minify.Payload.Unpack
import Minify.Proofs.ByteRuns
import Minify.Proofs.PayloadText
import Minify.Proofs.WordRuns
import Minify.Proofs.FailingRuns

/-!
Which texts are packed scripts, and what they unpack to.

A packed script is the decoder with a literal, two decimal numbers and a literal between its head
and its tail. It is unpacked when each longest run of word bytes in its payload is the numeral of
an index below the count, and then the entries take the places of the runs.
-/

namespace Minify.Payload

open Text

/-! ### The format -/

/-- What stands between single quotes, and the text that it is read as. -/
inductive Literal : List Char → List Char → Prop
  | nil : Literal [] []
  | plain {c : Char} {cs text : List Char} (hquote : c ≠ '\'') (hslash : c ≠ '\\')
      (rest : Literal cs text) : Literal (c :: cs) (c :: text)
  | escape (c : Char) {cs text : List Char} (rest : Literal cs text) :
      Literal ('\\' :: c :: cs) (unescaped c :: text)

/-- A number below `2 ^ 64` in decimal; zeros in front do no harm. -/
structure Decimal (ds : List Char) (n : Nat) : Prop where
  nonempty : ds ≠ []
  digits : ∀ c ∈ ds, c.isDigit = true
  value : Nat.ofDigitChars 10 ds 0 = n
  fits : n < UInt64.size

/-- The texts of the two literals and the two numbers of a packed script with these parts. -/
structure Spells (payload radix count words : List Char) (p : Parts) : Prop where
  payload : Literal payload p.payload
  radix : Decimal radix p.radix
  inRange : 2 ≤ p.radix ∧ p.radix ≤ 62
  count : Decimal count p.count
  words : Literal words (join p.words)
  entries : p.words ≠ [] ∧ ∀ w ∈ p.words, delimiter ∉ w
  counted : p.count = 0 ∨ p.words.length = p.count

/-- A packed script with its two literals and its two numbers. -/
def written (payload radix count words : List Char) : List Char :=
  decoderHead.toList ++ ('\'' :: payload ++ '\'' :: ',' :: (radix ++ ',' :: (count
    ++ ',' :: ('\'' :: words ++ '\'' :: decoderTail.toList))))

/-- A text that is a packed script with these parts. -/
def PackedText (cs : List Char) (p : Parts) : Prop :=
  ∃ payload radix count words, cs = written payload radix count words
    ∧ Spells payload radix count words p

/-- What the numeral of an index is replaced by: the entry, or the numeral if that is empty. -/
def Parts.entry (p : Parts) (i : Nat) : List Char :=
  let word := p.words.getD i []
  if word.isEmpty then Numeral.digits p.radix i else word

/-- Stretches with each run, the code of an index below the count, replaced by the entry there. -/
inductive Expands {α : Type} (count : Nat) (code entry : Nat → List α) :
    List (Stretch α) → List α → Prop
  | nil : Expands count code entry [] []
  | single (x : α) {ss : List (Stretch α)} {out : List α} (rest : Expands count code entry ss out) :
      Expands count code entry (.single x :: ss) (x :: out)
  | run {i : Nat} (hi : i < count) {ss : List (Stretch α)} {out : List α}
      (rest : Expands count code entry ss out) :
      Expands count code entry (.run (code i) :: ss) (entry i ++ out)

/-! ### The parts are read -/

lemma unquotedBody?_eq_some_iff {cs text rest : List Char} :
    unquotedBody? cs = some (text, rest) ↔
      ∃ body, cs = body ++ '\'' :: rest ∧ Literal body text := by
  constructor
  · intro h
    induction cs using unquotedBody?.induct generalizing text with
    | case1 => simp [unquotedBody?] at h
    | case2 cs =>
      simp only [unquotedBody?, Option.some.injEq, Prod.mk.injEq] at h
      obtain ⟨rfl, rfl⟩ := h
      exact ⟨[], rfl, .nil⟩
    | case3 => simp [unquotedBody?] at h
    | case4 c cs ih =>
      simp only [unquotedBody?, Option.map_eq_some_iff, Prod.mk.injEq] at h
      obtain ⟨⟨_, _⟩, h, rfl, rfl⟩ := h
      obtain ⟨body, rfl, hbody⟩ := ih h
      exact ⟨'\\' :: c :: body, rfl, .escape c hbody⟩
    | case5 c cs hquote hlast hslash ih =>
      rw [unquotedBody?.eq_5 _ _ hquote hlast hslash] at h
      simp only [Option.map_eq_some_iff, Prod.mk.injEq] at h
      obtain ⟨⟨_, _⟩, h, rfl, rfl⟩ := h
      have hc : c ≠ '\\' := by
        intro hc
        cases cs with
        | nil => exact hlast hc rfl
        | cons d cs => exact hslash d cs hc rfl
      obtain ⟨body, rfl, hbody⟩ := ih h
      exact ⟨c :: body, rfl, .plain hquote hc hbody⟩
  · rintro ⟨body, rfl, hbody⟩
    induction hbody with
    | nil => rfl
    | @plain c _ _ hquote hslash _ ih =>
      rw [List.cons_append, unquotedBody?, ih]
      · rfl
      · exact hquote
      · exact fun h => absurd h hslash
      · exact fun _ _ h => absurd h hslash
    | escape c _ ih =>
      rw [List.cons_append, List.cons_append, unquotedBody?, ih]
      rfl

lemma unquoted?_eq_some_iff {cs text rest : List Char} :
    unquoted? cs = some (text, rest) ↔
      ∃ body, cs = '\'' :: body ++ '\'' :: rest ∧ Literal body text := by
  unfold unquoted?
  split
  · rw [unquotedBody?_eq_some_iff]
    simp
  · rename_i h
    simp only [reduceCtorEq, List.cons_append, false_iff, not_exists, not_and]
    exact fun body hcs _ => h _ hcs

lemma after?_eq_some_iff {front cs rest : List Char} :
    after? front cs = some rest ↔ cs = front ++ rest := by
  unfold after?
  constructor
  · intro h
    split at h
    · rename_i hp
      obtain ⟨_, rfl⟩ := List.isPrefixOf_iff_prefix.mp hp
      simpa using h
    · cases h
  · rintro rfl
    simp

lemma number?_eq_some_iff {cs rest : List Char} {n : Nat} :
    number? cs = some (n, rest) ↔
      ∃ ds, cs = ds ++ rest ∧ Decimal ds n ∧ ∀ c ∈ rest.head?, c.isDigit = false := by
  constructor
  · intro h
    simp only [number?, Bool.or_eq_true, List.isEmpty_iff, decide_eq_true_eq, ge_iff_le] at h
    split at h
    · cases h
    · rename_i hn
      rw [not_or, Nat.not_le] at hn
      simp only [Option.some.injEq, Prod.mk.injEq] at h
      obtain ⟨rfl, rfl⟩ := h
      have htake := List.prefix_iff_eq_append.mp (List.takeWhile_prefix (l := cs) Char.isDigit)
      have hdrop : cs.drop (cs.takeWhile Char.isDigit).length = cs.dropWhile Char.isDigit :=
        List.append_cancel_left (htake.trans List.takeWhile_append_dropWhile.symm)
      refine ⟨_, htake.symm, ⟨hn.1, fun c => List.mem_takeWhile_imp, rfl, hn.2⟩, fun c hc => ?_⟩
      have := List.head?_dropWhile_not Char.isDigit cs
      rw [hdrop] at hc
      simpa [Option.mem_def.mp hc] using this
  · rintro ⟨ds, rfl, hds, hend⟩
    have hvalue : ds.foldl (fun n c => 10 * n + (c.toNat - 48)) 0 = n := hds.value
    have hnot : ¬(ds = [] ∨ n ≥ UInt64.size) :=
      not_or.mpr ⟨hds.nonempty, Nat.not_le.mpr hds.fits⟩
    simp only [number?, takeWhile_run hds.digits hend, hvalue, Bool.or_eq_true, List.isEmpty_iff,
      decide_eq_true_eq, if_neg hnot, List.drop_left]

/-! ### The whole script is read -/

lemma orElse_eq_ok_iff {α : Type} {what : Malformation} {v : Option α} {a : α} :
    orElse what v = .ok a ↔ v = some a := by
  cases v <;> simp [orElse]

lemma refuse_eq_ok_iff {ε α β : Type} {c : Bool} {e : ε} {f : β → Except ε α} {x : Except ε α}
    {a : α} : (if c = true then throw e >>= f else x) = .ok a ↔ c = false ∧ x = .ok a := by
  cases c <;> simp [throw, throwThe, MonadExceptOf.throw, bind, Except.bind]

lemma isRadix_eq_true_iff {radix : Nat} : isRadix radix = true ↔ 2 ≤ radix ∧ radix ≤ 62 := by
  simp [isRadix]

lemma counted_iff {count : Nat} {words : List (List Char)} :
    (decide (count > 0) && words.length != count) = false ↔ count = 0 ∨ words.length = count := by
  simp only [Bool.and_eq_false_iff, decide_eq_false_iff_not, bne_eq_false_iff_eq]
  omega

theorem parts_eq_ok_iff {cs : List Char} {p : Parts} : parts cs = .ok p ↔ PackedText cs p := by
  unfold parts
  simp only [bind_eq_ok_iff, orElse_eq_ok_iff, refuse_eq_ok_iff, after?_eq_some_iff,
    unquoted?_eq_some_iff, number?_eq_some_iff, counted_iff, Prod.exists, bne_eq_false_iff_eq,
    Bool.not_eq_false', isRadix_eq_true_iff, pure, Except.pure, Except.ok.injEq]
  constructor
  · rintro ⟨_, hcs, text, _, ⟨payload, rfl, hpayload⟩, _, rfl, n, _, ⟨radix, rfl, hradix, -⟩, _,
      rfl, k, _, ⟨count, rfl, hcount, -⟩, _, rfl, list, _, ⟨words, rfl, hwords⟩, rfl, hr, hk, rfl⟩
    have hjoin : join (split list) = list := intercalate_splitOn _ _
    exact ⟨payload, radix, count, words, hcs, hpayload, hradix, hr, hcount, hjoin.symm ▸ hwords,
      ⟨splitOn_ne_nil _ _, fun w => not_mem_of_mem_splitOn⟩, hk⟩
  · rintro ⟨payload, radix, count, words, hcs, h⟩
    have hsplit : split (join p.words) = p.words := split_join h.entries.1 h.entries.2
    have hcomma : ∀ cs, ∀ c ∈ (',' :: cs : List Char).head?, c.isDigit = false := by
      rintro cs c ⟨rfl⟩
      rfl
    refine ⟨_, hcs, p.payload, _, ⟨payload, rfl, h.payload⟩, _, rfl, p.radix, _,
      ⟨radix, rfl, h.radix, hcomma _⟩, _, rfl, p.count, _, ⟨count, rfl, h.count, hcomma _⟩, _, rfl,
      join p.words, _, ⟨words, rfl, h.words⟩, rfl, h.inRange, ?_, ?_⟩
    · exact hsplit.symm ▸ h.counted
    · rw [hsplit]

/-! ### The runs are replaced -/

section

variable {α : Type} {count : Nat} {code entry : Nat → List α} {ss : List (Stretch α)} {out : List α}

lemma expands_nil_iff : Expands count code entry [] out ↔ out = [] :=
  ⟨fun h => by cases h; rfl, fun h => h ▸ .nil⟩

lemma expands_single_iff {x : α} :
    Expands count code entry (.single x :: ss) out ↔
      ∃ rest, Expands count code entry ss rest ∧ x :: rest = out := by
  constructor
  · rintro (_ | ⟨_, rest⟩)
    exact ⟨_, rest, rfl⟩
  · rintro ⟨_, rest, rfl⟩
    exact .single x rest

lemma expands_run_iff {xs : List α} :
    Expands count code entry (.run xs :: ss) out ↔
      ∃ i < count, xs = code i
        ∧ ∃ rest, Expands count code entry ss rest ∧ entry i ++ rest = out := by
  constructor
  · rintro (_ | _ | ⟨hi, rest⟩)
    exact ⟨_, hi, rfl, _, rest, rfl⟩
  · rintro ⟨i, hi, rfl, _, rest, rfl⟩
    exact .run hi rest

variable (entry) in
/-- Stretches can be expanded just when their runs are codes. -/
lemma exists_expands_iff :
    (∃ out, Expands count code entry ss out) ↔ ∀ xs, .run xs ∈ ss → ∃ i < count, xs = code i := by
  constructor
  · rintro ⟨out, h⟩ xs hxs
    induction h with
    | nil => cases hxs
    | single x _ ih => exact ih (by simpa using hxs)
    | @run i hi _ _ _ ih =>
      rcases List.mem_cons.mp hxs with heq | hxs
      · cases heq
        exact ⟨i, hi, rfl⟩
      · exact ih hxs
  · intro h
    induction ss with
    | nil => exact ⟨[], .nil⟩
    | cons s ss ih =>
      obtain ⟨out, hout⟩ := ih fun xs hxs => h xs (List.mem_cons_of_mem s hxs)
      cases s with
      | single x => exact ⟨_, .single x hout⟩
      | run xs =>
        obtain ⟨i, hi, rfl⟩ := h xs List.mem_cons_self
        exact ⟨_, .run hi hout⟩

end

variable {p : Parts}

lemma expandCode_eq_ok_iff (hr : Numeral.IsRadix p.radix) {code out : List Char} :
    expandCode p.radix p.count p.words.toArray code = .ok out ↔
      ∃ i < p.count, code = Numeral.digits p.radix i ∧ p.entry i = out := by
  constructor
  · intro h
    unfold expandCode at h
    split at h
    · rename_i i hi
      split at h
      · rename_i hlt
        have hcode : code = Numeral.digits p.radix i := by
          simp only [Numeral.decode?, beq_iff_eq, Option.ite_none_right_eq_some,
            Option.some.injEq] at hi
          rw [← hi.1, hi.2]
        refine ⟨i, hlt, hcode, ?_⟩
        simpa [Parts.entry, ← hcode] using h
      · cases h
    · cases h
  · rintro ⟨i, hi, rfl, rfl⟩
    unfold expandCode Parts.entry
    rw [Numeral.decode?_digits hr]
    simp [hi]

/-- A run that nothing of a word follows is replaced before the rest is. -/
lemma expandRuns_run {expand : List Char → Except EncodingError (List Char)} (run : List Char)
    {cs : List Char} (hend : ∀ c ∈ cs.head?, isWordChar c = false) :
    expandRuns expand run cs = do
      let word ← flush expand run
      return word ++ (← expandRuns expand [] cs) := by
  cases cs with
  | nil =>
    rw [expandRuns_nil, expandRuns_nil]
    cases flush expand run <;> simp [flush, bind, Except.bind, pure, Except.pure]
  | cons c cs =>
    rw [expandRuns_cons_other (hend c rfl), expandRuns_cons_other (hend c rfl)]
    cases flush expand run <;> cases expandRuns expand [] cs <;> rfl

theorem expandRuns_eq_ok_iff (hr : Numeral.IsRadix p.radix) {cs : List Char}
    {ss : List (Stretch Char)} (h : Runs isWordChar cs ss) {out : List Char} :
    expandRuns (expandCode p.radix p.count p.words.toArray) [] cs = .ok out ↔
      Expands p.count (Numeral.digits p.radix) p.entry ss out := by
  induction h generalizing out with
  | nil => rw [expandRuns_nil, expands_nil_iff]; simp [flush, eq_comm]
  | @single x xs ss hx _ ih =>
    rw [expandRuns_cons_other hx, expands_single_iff]
    simp only [bind_eq_ok_iff, ih, pure, Except.pure, Except.ok.injEq]
    simp [flush]
  | @run ys xs ss hne hys hend _ ih =>
    rw [expandRuns_append hys, expandRuns_run _ hend, flush_reverse hne, expands_run_iff]
    simp only [bind_eq_ok_iff, expandCode_eq_ok_iff hr, ih, pure, Except.pure, Except.ok.injEq]
    constructor
    · rintro ⟨_, ⟨i, hi, rfl, rfl⟩, rest, hrest, rfl⟩
      exact ⟨i, hi, rfl, rest, hrest, rfl⟩
    · rintro ⟨i, hi, rfl, rest, hrest, rfl⟩
      exact ⟨_, ⟨i, hi, rfl, rfl⟩, rest, hrest, rfl⟩

theorem unpack_eq_ok_iff {s t : String} :
    unpack s = .ok t ↔ ∃ p ss, PackedText s.toList p ∧ Runs isWordChar p.payload ss
      ∧ Expands p.count (Numeral.digits p.radix) p.entry ss t.toList := by
  unfold unpack
  simp only [bind_eq_ok_iff, parts_eq_ok_iff, pure, Except.pure, Except.ok.injEq]
  constructor
  · rintro ⟨p, hp, out, hout, rfl⟩
    obtain ⟨ss, hss⟩ := exists_runs isWordChar p.payload
    obtain ⟨_, _, _, _, -, hspells⟩ := id hp
    rw [expandRuns_eq_ok_iff hspells.inRange hss] at hout
    exact ⟨p, ss, hp, hss, by rwa [String.toList_ofList]⟩
  · rintro ⟨p, ss, hp, hss, hexpands⟩
    obtain ⟨_, _, _, _, -, hspells⟩ := id hp
    exact ⟨p, hp, t.toList, (expandRuns_eq_ok_iff hspells.inRange hss).mpr hexpands,
      String.ofList_toList⟩

/-! ### Bytes -/

section

variable {count : Nat} {code entry : Nat → List Char}

lemma expands_singles_iff {α : Type} {count : Nat} {code entry : Nat → List α}
    {ss : List (Stretch α)} {xs out : List α} :
    Expands count code entry (xs.map .single ++ ss) out ↔
      ∃ rest, Expands count code entry ss rest ∧ xs ++ rest = out := by
  induction xs generalizing out with
  | nil => simp
  | cons x xs ih =>
    simp only [List.map_cons, List.cons_append, expands_single_iff, ih]
    simp

/-- The runs of the bytes are replaced by the bytes of what the runs are replaced by. -/
lemma expands_bytes_iff {ss : List (Stretch Char)} {bs : List UInt8} :
    Expands count (fun i => utf8 (code i)) (fun i => utf8 (entry i)) (ss.flatMap Stretch.bytes) bs ↔
      ∃ out, Expands count code entry ss out ∧ utf8 out = bs := by
  induction ss generalizing bs with
  | nil => simp [expands_nil_iff, eq_comm]
  | cons s ss ih =>
    cases s with
    | single c =>
      rw [List.flatMap_cons, Stretch.bytes, expands_singles_iff]
      simp only [ih, expands_single_iff]
      constructor
      · rintro ⟨_, ⟨out, hout, rfl⟩, rfl⟩
        exact ⟨_, ⟨out, hout, rfl⟩, rfl⟩
      · rintro ⟨_, ⟨out, hout, rfl⟩, rfl⟩
        exact ⟨_, ⟨out, hout, rfl⟩, rfl⟩
    | run cs =>
      rw [List.flatMap_cons, Stretch.bytes, List.singleton_append]
      simp only [ih, expands_run_iff]
      constructor
      · rintro ⟨i, hi, hcs, _, ⟨out, hout, rfl⟩, rfl⟩
        exact ⟨_, ⟨i, hi, utf8_injective hcs, out, hout, rfl⟩, utf8_append _ _⟩
      · rintro ⟨_, ⟨i, hi, rfl, out, hout, rfl⟩, rfl⟩
        exact ⟨i, hi, rfl, _, ⟨out, hout, rfl⟩, (utf8_append _ _).symm⟩

end

theorem unpack_eq_ok_iff_bytes {s t : String} :
    unpack s = .ok t ↔
      ∃ p runs, PackedText s.toList p ∧ Runs isWordByte (utf8 p.payload) runs
        ∧ Expands p.count (fun i => utf8 (Numeral.digits p.radix i)) (fun i => utf8 (p.entry i))
          runs (utf8 t.toList) := by
  rw [unpack_eq_ok_iff]
  constructor
  · rintro ⟨p, ss, hp, hss, hexpands⟩
    exact ⟨p, _, hp, hss.bytes, expands_bytes_iff.mpr ⟨_, hexpands, rfl⟩⟩
  · rintro ⟨p, runs, hp, hruns, hexpands⟩
    obtain ⟨ss, hss, rfl⟩ := runs_utf8_iff.mp hruns
    obtain ⟨out, hout, heq⟩ := expands_bytes_iff.mp hexpands
    exact ⟨p, ss, hp, hss, utf8_injective heq ▸ hout⟩

/-- **What is unpacked, and to what.** A text is unpacked just when it is a packed script in whose
payload each longest run of word bytes is the numeral of an index below the count. Then the result
has, in bytes, the entries in place of the runs and all the rest as it was. The runs of the bytes
of any text are those of its characters, so no character is cut. -/
theorem unpack_reads_format (s : String) :
    ((∃ t, unpack s = .ok t) ↔
        ∃ p runs, PackedText s.toList p ∧ Runs isWordByte (utf8 p.payload) runs
          ∧ ∀ run, .run run ∈ runs → ∃ i < p.count, run = utf8 (Numeral.digits p.radix i))
      ∧ (∀ t, unpack s = .ok t ↔
        ∃ p runs, PackedText s.toList p ∧ Runs isWordByte (utf8 p.payload) runs
          ∧ Expands p.count (fun i => utf8 (Numeral.digits p.radix i)) (fun i => utf8 (p.entry i))
            runs (utf8 t.toList))
      ∧ ∀ cs runs, Runs isWordByte (utf8 cs) runs ↔
          ∃ ss, Runs isWordChar cs ss ∧ runs = ss.flatMap Stretch.bytes := by
  refine ⟨⟨?_, ?_⟩, fun t => unpack_eq_ok_iff_bytes, fun cs runs => runs_utf8_iff⟩
  · rintro ⟨t, ht⟩
    obtain ⟨p, runs, hp, hruns, hexpands⟩ := unpack_eq_ok_iff_bytes.mp ht
    exact ⟨p, runs, hp, hruns, (exists_expands_iff _).mp ⟨_, hexpands⟩⟩
  · rintro ⟨p, runs, hp, hruns, hcodes⟩
    obtain ⟨bs, hbs⟩ := (exists_expands_iff fun i => utf8 (p.entry i)).mpr hcodes
    -- what the runs expand to are the bytes of a text
    obtain ⟨ss, -, rfl⟩ := runs_utf8_iff.mp hruns
    obtain ⟨out, -, rfl⟩ := expands_bytes_iff.mp hbs
    refine ⟨String.ofList out, unpack_eq_ok_iff_bytes.mpr ⟨p, _, hp, hruns, ?_⟩⟩
    rwa [String.toList_ofList]

example : unpack (decoderHead ++ "'1-é 0',010,2,'|x'" ++ decoderTail) = .ok "x-é 0" := by
  -- the characters of long literals are put in before the reading is evaluated
  unfold unpack parts decoderHead decoderTail
  repeat rw [String.toList_append]
  repeat rw [String.toList_ofList]
  decide +kernel

end Minify.Payload
