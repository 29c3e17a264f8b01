import Mathlib
import Minify.Proofs.ByteSize
import Minify.Proofs.LexerRun
import Minify.Proofs.TokenEnds

/-!
The tokens of a script are the script, piece by piece.

Wherever the lexer stands, the text before it and the text it has still to read make up the script,
and its position counts the bytes before it. A call takes a piece off the front, also when it fails,
and a token is the piece that its call took. So the tokens of a run follow one another without a gap
from the start of the script to its end, or to the place where a fault was met.
-/

namespace Minify

open Text

namespace Scan

/-- A fault is said to be no further than the text goes. -/
lemma name_fault {cs : List Char} {reason : LexReason} {distance : Nat}
    (h : (name cs).result = .error (reason, distance)) : distance ≤ byteSize cs := by
  have happ := congrArg byteSize (nameTail_append cs)
  unfold name at h
  dsimp only at h
  split at h
  · cases h
  · cases h
    rw [size, utf8ByteSize_ofList]
    simp only [byteSize_append] at happ
    omega

lemma template_fault {head : Bool} {cs : List Char} {reason : LexReason} {distance : Nat}
    (h : (template head cs).result = .error (reason, distance)) : distance = 0 := by
  unfold template at h
  dsimp only at h
  split at h <;> cases h
  rfl

lemma endNumber_fault {taken rest : List Char} {reason : LexReason} {distance : Nat}
    (h : (endNumber taken rest).result = .error (reason, distance)) : distance = 0 := by
  unfold endNumber at h
  dsimp only at h
  split at h <;> cases h
  rfl

lemma number_fault {cs : List Char} {reason : LexReason} {distance : Nat}
    (h : (number cs).result = .error (reason, distance)) : distance = 0 := by
  have hend {whole : Bool} {front ds : List Char}
      (h : (numberEnd whole front ds).result = .error (reason, distance)) : distance = 0 := by
    unfold numberEnd at h
    split at h
    · split at h
      · dsimp only at h
        split at h
        · cases h
          rfl
        · exact endNumber_fault h
      · split at h <;> exact endNumber_fault h
    · exact endNumber_fault h
  have hdecimal {ds : List Char}
      (h : (decimalNumber ds).result = .error (reason, distance)) : distance = 0 := by
    unfold decimalNumber at h
    dsimp only at h
    split at h <;> exact hend h
  unfold number at h
  split at h
  · split at h
    · unfold radixNumber at h
      dsimp only at h
      split at h
      · cases h
        rfl
      · exact endNumber_fault h
    · exact hdecimal h
  · exact hdecimal h

end Scan

namespace Lexer

open Scan

lemma scan_fault {lx : Lexer} {c : Char} {cs : List Char} {reason : LexReason} {distance : Nat}
    (h : (lx.scan c cs).result = .error (reason, distance)) : distance ≤ byteSize (c :: cs) := by
  have hzero (h : distance = 0) : distance ≤ byteSize (c :: cs) := h ▸ Nat.zero_le _
  rw [scan_eq] at h
  have hcases := scanner_cases lx c cs
  generalize lx.scannerOf c cs.head? = f at hcases h
  cases hcases with
  | blanks => cases h
  | hashbang => cases h
  | lineComment => cases h
  | blockComment =>
    unfold blockComment at h
    dsimp only at h
    split at h <;> cases h
    exact Nat.zero_le _
  | name => exact name_fault h
  | number => exact hzero (number_fault h)
  | string =>
    unfold string at h
    dsimp only at h
    split at h <;> cases h
    exact Nat.zero_le _
  | template => exact hzero (template_fault h)
  | resumed => exact hzero (template_fault h)
  | regex =>
    unfold regex at h
    dsimp only at h
    split at h <;> cases h
    exact Nat.zero_le _
  | punctuator =>
    unfold punctuator at h
    split at h <;> cases h
    exact Nat.zero_le _

/-- What a call gives, and the lexer after it. -/
inductive NextCase (lx : Lexer) : Except LexError (Option Token) × Lexer → Prop
  | ends (hrest : lx.rest = []) (hresume : lx.resume = []) : NextCase lx (.ok none, lx)
  /-- The text ends in a template. -/
  | cutShort (hrest : lx.rest = []) :
      NextCase lx (.error ⟨.unterminatedTemplate, lx.pos⟩, lx)
  | fault {c : Char} {cs : List Char} {reason : LexReason} {distance : Nat}
      (hrest : lx.rest = c :: cs) (h : (lx.scan c cs).result = .error (reason, distance)) :
      NextCase lx (.error ⟨reason, lx.pos + distance⟩, lx.skip c (lx.scan c cs))
  | token {c : Char} {cs : List Char} {kind : TokenKind}
      (hrest : lx.rest = c :: cs) (h : (lx.scan c cs).result = .ok kind) :
      NextCase lx (.ok (some ⟨kind, String.ofList (lx.scan c cs).taken, lx.pos⟩),
        (lx.skip c (lx.scan c cs)).record ⟨kind, String.ofList (lx.scan c cs).taken, lx.pos⟩)

lemma next_cases (lx : Lexer) : NextCase lx lx.next := by
  unfold next
  split
  · rename_i hrest
    split
    · exact .ends hrest (List.isEmpty_iff.mp ‹_›)
    · exact .cutShort hrest
  · rename_i hrest
    dsimp only
    split
    · exact .fault hrest ‹_›
    · exact .token hrest ‹_›

/-- A call takes a piece off the front of the text. It moves the position by the bytes of the piece,
gives it as the token if it gives one, and says of a fault that it is in the text. -/
structure Takes (lx : Lexer) (piece : List Char) : Prop where
  rest : piece ++ lx.next.2.rest = lx.rest
  pos : lx.next.2.pos = lx.pos + byteSize piece
  token : ∀ t, lx.next.1 = .ok (some t) →
    piece ≠ [] ∧ t.text = String.ofList piece ∧ t.start = lx.pos
  fault : ∀ e, lx.next.1 = .error e →
    lx.pos ≤ e.offset ∧ e.offset ≤ lx.pos + byteSize lx.rest
  ends : lx.next.1 = .ok none → lx.rest = []

lemma record_pos (lx : Lexer) (t : Token) : (lx.record t).pos = lx.pos := by
  unfold record
  split
  · rfl
  · dsimp only
    split <;> try rfl
    split
    · rfl
    · split <;> rfl

/-- **What a call does**, whatever was called before it. -/
lemma takes_next (lx : Lexer) : ∃ piece, lx.Takes piece := by
  have h := next_cases lx
  generalize hnext : lx.next = r at h
  cases h with
  | ends hrest =>
    refine ⟨[], by rw [hnext]; rfl, by rw [hnext]; rfl, fun t ht => ?_, fun e he => ?_,
      fun _ => hrest⟩
    · rw [hnext] at ht
      cases ht
    · rw [hnext] at he
      cases he
  | cutShort hrest =>
    refine ⟨[], by rw [hnext]; rfl, by rw [hnext]; rfl, fun t ht => ?_, fun e he => ?_,
      fun _ => hrest⟩
    · rw [hnext] at ht
      cases ht
    · rw [hnext] at he
      cases he
      exact ⟨Nat.le_refl _, Nat.le_add_right _ _⟩
  | @fault c cs reason distance hrest hk =>
    have hsize : size (lx.scan c cs).taken = byteSize (lx.scan c cs).taken := utf8ByteSize_ofList _
    refine ⟨(lx.scan c cs).taken, ?_, ?_, fun t ht => ?_, fun e he => ?_, fun hn => ?_⟩
    · rw [hnext, hrest]
      exact (lx.scan_splits c cs).append
    · rw [hnext, ← hsize]
      rfl
    · rw [hnext] at ht
      cases ht
    · rw [hnext] at he
      cases he
      rw [hrest]
      exact ⟨Nat.le_add_right _ _, Nat.add_le_add_left (scan_fault hk) _⟩
    · rw [hnext] at hn
      cases hn
  | @token c cs kind hrest hk =>
    have hsplits := lx.scan_splits c cs
    have hsize : size (lx.scan c cs).taken = byteSize (lx.scan c cs).taken := utf8ByteSize_ofList _
    refine ⟨(lx.scan c cs).taken, ?_, ?_, fun t ht => ?_, fun e he => ?_, fun hn => ?_⟩
    · rw [hnext, record_rest, hrest]
      exact hsplits.append
    · rw [hnext, record_pos, ← hsize]
      rfl
    · rw [hnext] at ht
      cases ht
      exact ⟨hsplits.ne_nil kind hk, rfl, rfl⟩
    · rw [hnext] at he
      cases he
    · rw [hnext] at hn
      cases hn

/-- The lexer has read the text `front` of a script. -/
structure Stands (source : String) (front : List Char) (lx : Lexer) : Prop where
  text : front ++ lx.rest = source.toList
  pos : lx.pos = byteSize front

variable {source : String} {front piece : List Char} {lx : Lexer}

lemma stands_ofString (source : String) : Stands source [] (ofString source) := ⟨rfl, rfl⟩

lemma Stands.next (h : Stands source front lx) (ht : lx.Takes piece) :
    Stands source (front ++ piece) lx.next.2 := by
  refine ⟨?_, ?_⟩
  · rw [List.append_assoc, ht.rest, h.text]
  · rw [ht.pos, h.pos, byteSize_append]

lemma Stands.isValid (h : Stands source front lx) :
    String.Pos.Raw.IsValid source ⟨lx.pos⟩ := by
  refine String.Pos.Raw.isValid_iff_exists_append.mpr
    ⟨String.ofList front, String.ofList lx.rest, ?_, ?_⟩
  · rw [← String.ofList_append, h.text, String.ofList_toList]
  · rw [h.pos, String.rawEndPos, utf8ByteSize_ofList]

lemma Stands.pos_le (h : Stands source front lx) : lx.pos ≤ source.utf8ByteSize := by
  have hsize := congrArg byteSize h.text
  rw [byteSize_append, ← utf8ByteSize_eq, ← h.pos] at hsize
  omega

lemma extract_eq {mid rest : List Char} (h : front ++ mid ++ rest = source.toList) :
    String.Pos.Raw.extract source ⟨byteSize front⟩ ⟨byteSize front + byteSize mid⟩
      = String.ofList mid := by
  have hsource : source = String.ofList (front ++ mid ++ rest) := by
    rw [h, String.ofList_toList]
  have hvalid := String.extract_of_valid front mid rest
  rw [← String.utf8ByteSize_ofList, ← String.utf8ByteSize_ofList, utf8ByteSize_ofList,
    utf8ByteSize_ofList, ← hsource] at hvalid
  exact hvalid

/-- The lexer of a script after some calls, whatever they gave. -/
def afterCalls (source : String) (n : Nat) : Lexer := (fun lx => lx.next.2)^[n] (ofString source)

lemma afterCalls_succ (source : String) (n : Nat) :
    afterCalls source (n + 1) = (afterCalls source n).next.2 :=
  Function.iterate_succ_apply' _ _ _

lemma exists_stands (source : String) (n : Nat) :
    ∃ front, Stands source front (afterCalls source n) := by
  induction n with
  | zero => exact ⟨[], stands_ofString source⟩
  | succ n ih =>
    obtain ⟨front, h⟩ := ih
    obtain ⟨piece, ht⟩ := takes_next (afterCalls source n)
    rw [afterCalls_succ]
    exact ⟨front ++ piece, h.next ht⟩

end Lexer

/-- Tokens that are not empty and follow one another from the byte offset `start` up to `stop`. -/
def Tile (start stop : Nat) : List Token → Prop
  | [] => start = stop
  | t :: ts => t.start = start ∧ start < t.stop ∧ Tile t.stop stop ts

namespace Lexer

variable {source : String} {front : List Char} {lx : Lexer}

/-- The tokens of a run tile the text up to where it ends: to the end of the script, or not past the
fault. -/
lemma tile_run (h : Stands source front lx) : ∃ read rest : List Char,
    front ++ read ++ rest = source.toList ∧
      Tile lx.pos (lx.pos + byteSize read) lx.run.1 ∧
      String.join (lx.run.1.map Token.text) = String.ofList read ∧
      (lx.run.2 = none → rest = []) ∧
      ∀ e, lx.run.2 = some e →
        lx.pos + byteSize read ≤ e.offset ∧ e.offset ≤ source.utf8ByteSize := by
  induction hn : lx.rest.length using Nat.strongRecOn generalizing lx front with
  | ind n ih =>
    subst hn
    obtain ⟨piece, ht⟩ := takes_next lx
    match hnext : lx.next with
    | (.ok (some t), lx') =>
      have h1 : lx.next.1 = .ok (some t) := congrArg Prod.fst hnext
      have h2 : lx.next.2 = lx' := congrArg Prod.snd hnext
      have hlt : lx.next.2.rest.length < lx.rest.length := next_rest_lt h1
      obtain ⟨hne, htext, hstart⟩ := ht.token t h1
      obtain ⟨read, rest, happ, htile, hjoin, hend, hfault⟩ := ih _ hlt (h.next ht) rfl
      have hpos := ht.pos
      rw [h2] at htile hjoin hend hfault hpos
      have hstop : t.stop = lx'.pos := by
        rw [Token.stop, hstart, htext, utf8ByteSize_ofList, hpos]
      have hsize : 0 < byteSize piece := by
        have hlen := length_le_byteSize piece
        have hpos := List.length_pos_of_ne_nil hne
        omega
      have hall : lx.pos + byteSize (piece ++ read) = lx'.pos + byteSize read := by
        rw [byteSize_append, hpos, Nat.add_assoc]
      rw [run_token hnext]
      refine ⟨piece ++ read, rest, ?_, ⟨hstart, ?_, ?_⟩, ?_, hend, ?_⟩
      · rw [← List.append_assoc, happ]
      · rw [hstop, hpos]
        omega
      · rw [hstop, hall]
        exact htile
      · rw [List.map_cons, String.join_cons, hjoin, htext, String.ofList_append]
      · rw [hall]
        exact hfault
    | (.ok none, lx') =>
      have hrest := ht.ends (congrArg Prod.fst hnext)
      rw [run_end hnext]
      refine ⟨[], [], ?_, rfl, rfl, fun _ => rfl, nofun⟩
      rw [← h.text, hrest, List.append_nil]
    | (.error e, lx') =>
      obtain ⟨hle, hge⟩ := ht.fault e (congrArg Prod.fst hnext)
      have hsize := congrArg byteSize h.text
      rw [byteSize_append, ← utf8ByteSize_eq, ← h.pos] at hsize
      rw [run_fault hnext]
      refine ⟨[], lx.rest, ?_, rfl, rfl, nofun, fun e' he' => ?_⟩
      · rw [List.append_nil, h.text]
      · cases he'
        rw [← hsize]
        exact ⟨hle, hge⟩

/-- The tokens of a run are what the calls give, one after another, and the call after them gives
none. -/
lemma calls_run (lx : Lexer) :
    lx.run.1.length ≤ lx.rest.length ∧
      (∀ i t, lx.run.1[i]? = some t → ((fun lx => lx.next.2)^[i] lx).next.1 = .ok (some t)) ∧
      ((fun lx => lx.next.2)^[lx.run.1.length] lx).next.1
        = (lx.run.2.map Except.error).getD (.ok none) := by
  induction hn : lx.rest.length using Nat.strongRecOn generalizing lx with
  | ind n ih =>
    subst hn
    match hnext : lx.next with
    | (.ok (some t), lx') =>
      have h1 : lx.next.1 = .ok (some t) := congrArg Prod.fst hnext
      have h2 : lx.next.2 = lx' := congrArg Prod.snd hnext
      have hlt : lx.next.2.rest.length < lx.rest.length := next_rest_lt h1
      rw [h2] at hlt
      obtain ⟨hlen, hcalls, hlast⟩ := ih _ hlt lx' rfl
      rw [run_token hnext]
      refine ⟨?_, fun i t' hi => ?_, ?_⟩
      · rw [List.length_cons]
        omega
      · cases i with
        | zero =>
          cases hi
          exact h1
        | succ i =>
          rw [Function.iterate_succ_apply, h2]
          exact hcalls i t' hi
      · rw [List.length_cons, Function.iterate_succ_apply, h2]
        exact hlast
    | (.ok none, lx') =>
      rw [run_end hnext]
      exact ⟨Nat.zero_le _, nofun, congrArg Prod.fst hnext⟩
    | (.error e, lx') =>
      rw [run_fault hnext]
      exact ⟨Nat.zero_le _, nofun, congrArg Prod.fst hnext⟩

/-- The next call keeps the lexer in step with the script: it goes on from between two characters,
not past the end, and a token that it gives is the text it went over. -/
structure InStep (source : String) (lx : Lexer) : Prop where
  boundary : String.Pos.Raw.IsValid source ⟨lx.pos⟩
  forward : lx.pos ≤ lx.next.2.pos
  inside : lx.next.2.pos ≤ source.utf8ByteSize
  token : ∀ t, lx.next.1 = .ok (some t) →
    t.start = lx.pos ∧ t.stop = lx.next.2.pos ∧ lx.pos < lx.next.2.pos ∧
      t.text = String.Pos.Raw.extract source ⟨lx.pos⟩ ⟨lx.next.2.pos⟩

lemma Stands.inStep (h : Stands source front lx) : InStep source lx := by
  obtain ⟨piece, ht⟩ := takes_next lx
  have hpos := ht.pos
  refine ⟨h.isValid, by omega, (h.next ht).pos_le, fun t htok => ?_⟩
  obtain ⟨hne, htext, hstart⟩ := ht.token t htok
  have hlen := length_le_byteSize piece
  have hpiece := List.length_pos_of_ne_nil hne
  refine ⟨hstart, ?_, by omega, ?_⟩
  · rw [Token.stop, hstart, htext, utf8ByteSize_ofList, hpos]
  · rw [htext, hpos, h.pos]
    have happ : front ++ piece ++ lx.next.2.rest = source.toList := by
      rw [List.append_assoc, ht.rest, h.text]
    exact (extract_eq happ).symm

end Lexer

open Lexer

lemma tokenize_eq_ok {source : String} {ts : List Token} (h : tokenize source = .ok ts) :
    tokens source = (ts, none) := by
  unfold tokenize at h
  split at h
  · cases h
    assumption
  · cases h

lemma covers_of_tokenize {source : String} {ts : List Token} (h : tokenize source = .ok ts) :
    Tile 0 source.utf8ByteSize ts ∧ String.join (ts.map Token.text) = source := by
  obtain ⟨read, rest, happ, htile, hjoin, hend, -⟩ := tile_run (stands_ofString source)
  have htokens : (ofString source).run = (ts, none) := tokenize_eq_ok h
  have hzero : (ofString source).pos = 0 := rfl
  rw [htokens] at htile hjoin hend
  rw [List.nil_append, hend rfl, List.append_nil] at happ
  rw [hzero, Nat.zero_add, happ, ← utf8ByteSize_eq] at htile
  rw [happ, String.ofList_toList] at hjoin
  exact ⟨htile, hjoin⟩

lemma Tile.start_eq {start stop : Nat} {front back : List Token} {t : Token}
    (h : Tile start stop (front ++ t :: back)) :
    t.start = start + (String.join (front.map Token.text)).utf8ByteSize := by
  induction front generalizing start with
  | nil => exact h.1
  | cons s front ih =>
    obtain ⟨hstart, -, hrest⟩ := h
    rw [ih hrest, List.map_cons, String.join_cons, String.utf8ByteSize_append, Token.stop, hstart,
      Nat.add_assoc]

lemma Tile.text_ne_empty {start stop : Nat} {ts : List Token} (h : Tile start stop ts) :
    ∀ t ∈ ts, t.text ≠ "" := by
  induction ts generalizing start with
  | nil => exact nofun
  | cons t ts ih =>
    obtain ⟨hstart, hlt, hrest⟩ := h
    refine List.forall_mem_cons.mpr ⟨fun he => ?_, ih hrest⟩
    rw [Token.stop, he, hstart] at hlt
    exact Nat.lt_irrefl start hlt

lemma tokenize_eq_error {source : String} {e : LexError} (h : tokenize source = .error e) :
    (tokens source).2 = some e := by
  unfold tokenize at h
  split at h
  · cases h
  · rename_i htokens
    cases h
    rw [htokens]

/-- **The lexer loses nothing and stays in step**, whatever calls failed before. So the tokens of a
script without faults are the whole script, and those before a fault are the script up to a place
no later than the fault. A script has no more tokens than characters, the first calls give them, and
the call after the last of them gives the fault or the end. -/
theorem lexing_covers (source : String) :
    (∀ n, InStep source (afterCalls source n)) ∧
    (∀ ts, tokenize source = .ok ts →
      Tile 0 source.utf8ByteSize ts ∧ String.join (ts.map Token.text) = source) ∧
    (∀ e, tokenize source = .error e → ∃ p,
      Tile 0 p (tokens source).1 ∧
        String.join ((tokens source).1.map Token.text)
          = String.Pos.Raw.extract source ⟨0⟩ ⟨p⟩ ∧
        p ≤ e.offset ∧ e.offset ≤ source.utf8ByteSize) ∧
    (tokens source).1.length ≤ source.length ∧
    (∀ i t, (tokens source).1[i]? = some t → (afterCalls source i).next.1 = .ok (some t)) ∧
    (afterCalls source (tokens source).1.length).next.1
      = ((tokens source).2.map Except.error).getD (.ok none) := by
  obtain ⟨read, rest, happ, htile, hjoin, hend, hfault⟩ := tile_run (stands_ofString source)
  obtain ⟨hlen, hcalls, hlast⟩ := calls_run (ofString source)
  have hzero : (ofString source).pos = 0 := rfl
  rw [List.nil_append] at happ
  rw [hzero, Nat.zero_add] at htile hfault
  refine ⟨fun n => ?_, fun ts hts => ?_, fun e he => ?_, hlen, hcalls, hlast⟩
  · obtain ⟨front, h⟩ := exists_stands source n
    exact h.inStep
  · have htokens : (ofString source).run = (ts, none) := tokenize_eq_ok hts
    rw [htokens] at htile hjoin hend
    have hread : read = source.toList := by rw [← happ, hend rfl, List.append_nil]
    rw [hread, ← utf8ByteSize_eq] at htile
    rw [hread, String.ofList_toList] at hjoin
    exact ⟨htile, hjoin⟩
  · obtain ⟨hle, hge⟩ := hfault e (tokenize_eq_error he)
    refine ⟨byteSize read, htile, ?_, hle, hge⟩
    have hread : String.Pos.Raw.extract source ⟨byteSize []⟩ ⟨byteSize [] + byteSize read⟩
        = String.ofList read := extract_eq happ
    rw [byteSize_nil, Nat.zero_add] at hread
    exact hjoin.trans hread.symm

end Minify
