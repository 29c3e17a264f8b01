import Minify.Proofs.ArrowParameters

/-!
What the tracker reads in an expression.

By induction on the tree: the names of an expression are recorded in their order, each with what it
refers to by the words of the expression. All are, but for one at most: the name right before the
colon of a `case` is not recorded, unless it follows the keyword.
-/

namespace Minify

variable {sites : List Site} {site : Site} {ps qs : List MarkedWord}

namespace MarkedWord

lemma named_ne_nil (h : Marked sites ps) (hp : ∃ p ∈ ps, p.names = true) :
    named sites ps ≠ [] := by
  induction h with
  | nil => exact absurd hp (by simp)
  | @cons site p xs ps _ _ ih =>
    rw [named]
    split
    · exact List.cons_ne_nil _ _
    · obtain ⟨q, hq, hnames⟩ := hp
      rcases List.mem_cons.mp hq with rfl | hq
      · contradiction
      · exact ih ⟨q, hq, hnames⟩

end MarkedWord

def cut {α : Type} (lost : Bool) (l : List α) : List α := if lost then l.dropLast else l

@[simp] lemma cut_false {α : Type} (l : List α) : cut false l = l := rfl

lemma cut_append {α : Type} {lost : Bool} (l : List α) {l' : List α}
    (h : lost = true → l' ≠ []) : cut lost (l ++ l') = l ++ cut lost l' := by
  cases lost with
  | false => rfl
  | true => exact List.dropLast_append_of_ne_nil (h rfl)

namespace Expr

def endsInName : Expr → Bool
  | name _ => true
  | cond _ _ no => endsInName no
  | arrow _ body => endsInName body
  | arrows _ body => endsInName body
  | unary _ e => endsInName e
  | binary _ _ r => endsInName r
  | _ => false

lemma reads_ne_nil {e : Expr} (h : e.endsInName = true) (sees : String → Option ScopeId)
    (n : ScopeId) :
    e.reads sees n ≠ [] := by
  induction e using Expr.endsInName.induct generalizing sees n with
  | case1 x => simp [reads]
  | case2 test yes no ih => simp [reads, ih h]
  | case3 x body ih => simp [reads]
  | case4 params body ih => simp [reads, ih h]
  | case5 op e ih => simpa [reads] using ih h sees n
  | case6 op l r ih => simp [reads, ih h]
  | case7 e => simp [endsInName] at h

lemma exists_last_name {e : Expr} (h : e.endsInName = true) :
    ∃ ps p, e.pieces = ps ++ [p] ∧ p.names = true := by
  have hlast {f : Expr} (hf : ∃ ps p, f.pieces = ps ++ [p] ∧ p.names = true)
    (qs : List MarkedWord) :
      ∃ ps p, qs ++ f.pieces = ps ++ [p] ∧ p.names = true := by
    obtain ⟨ps, p, he, hnames⟩ := hf
    exact ⟨qs ++ ps, p, by rw [he, List.append_assoc], hnames⟩
  induction e using Expr.endsInName.induct with
  | case1 x => exact ⟨[], _, rfl, rfl⟩
  | case2 test yes no ih =>
    have hpieces : (cond test yes no).pieces
        = (test.pieces ++ .punct "?" :: (yes.pieces ++ [.punct ":"])) ++ no.pieces := by
      simp [pieces]
    exact hpieces ▸ hlast (ih h) _
  | case3 x body ih => exact hlast (ih h) [.name x, .punct "=>"]
  | case4 params body ih =>
    have hpieces : (arrows params body).pieces
        = (.openParams :: (MarkedWord.listed params ++ [.punct ")", .punct "=>"]))
          ++ body.pieces := by
      simp [pieces]
    exact hpieces ▸ hlast (ih h) _
  | case5 op e ih =>
    obtain ⟨ps, p, he, hnames⟩ := ih h
    rw [pieces]
    split
    · rw [he]
      cases ps with
      | nil => exact ⟨[.other op], p.stay, rfl, hnames⟩
      | cons q ps => exact ⟨.other op :: q.stay :: ps, p, rfl, hnames⟩
    · exact ⟨.other op :: ps, p, by rw [he, List.cons_append], hnames⟩
  | case6 op l r ih =>
    have hpieces : (binary op l r).pieces = (l.pieces ++ [.other op]) ++ r.pieces := by
      simp [pieces]
    exact hpieces ▸ hlast (ih h) _
  | case7 e => simp [endsInName] at h

end Expr

namespace Tracker

variable {s t u : Tracker} {next : Option Token} {sees after : String → Option ScopeId} {p : String}
  {a : Nat} {f : List (String × Option ScopeId)} {i : List Nat} {kind : FrameKind} {o c : Site}

/-- The last word of the expression is a name that does not stand right after `case`. -/
def endsUnguarded (before : List Site) : Expr → Bool
  | .name _ => prevKeyword? before != some .kwCase
  | e => e.endsInName

/-- The last name of the expression is not recorded: a colon follows that belongs to no conditional,
and no `case` stands right before the name. -/
def losesLast (s : Tracker) (next : Option Token) (e : Expr) : Bool :=
  nextIs next ":" && s.top.ternary = 0 && endsUnguarded s.before e

lemma losesLast_eq_false (e : Expr) (h : nextIs next ":" = true → 0 < s.top.ternary) :
    losesLast s next e = false := by
  unfold losesLast
  cases hn : nextIs next ":" with
  | false => rfl
  | true =>
    have hternary := Nat.ne_of_gt (h hn)
    simp [hternary]

lemma endsUnguarded_of_ne {before : List Site} {e : Expr} (h : ∀ x, e ≠ .name x) :
    endsUnguarded before e = e.endsInName := by
  cases e with
  | name x => exact absurd rfl (h x)
  | _ => rfl

/-- The last part of an expression loses its last name with it. -/
lemma losesLast_of_trailing {e r : Expr} (htop : t.top = s.top)
    (hprev : prevKeyword? t.before ≠ some .kwCase) (he : ∀ x, e ≠ .name x)
    (hr : e.endsInName = r.endsInName) : losesLast t next r = losesLast s next e := by
  have hlast : endsUnguarded t.before r = r.endsInName := by
    cases r with
    | name x => simpa [endsUnguarded, Expr.endsInName] using hprev
    | _ => rfl
  unfold losesLast
  rw [endsUnguarded_of_ne he, hlast, htop, hr]

lemma losesLast_of_not_name {e : Expr} (h : e.endsInName = false) : losesLast s next e = false := by
  have hne : ∀ x, e ≠ .name x := by
    rintro x rfl
    cases h
  rw [losesLast, endsUnguarded_of_ne hne, h, Bool.and_false]

/-- What holds at the start of a part of an expression. -/
structure AtStart (ps : List MarkedWord) (sees : String → Option ScopeId) (sites : List Site)
    (s : Tracker) : Prop where
  free : Free s
  clear : Clear s.before
  sees : Sees s s.current sees
  marked : Marked sites ps
  calm : ∀ site ∈ sites.head?, Calm s site

/-- An expression is read: its names are recorded, but for the last if it is lost. -/
def Readable (e : Expr) : Prop :=
  ∀ {sees : String → Option ScopeId} (next : Option Token) {sites : List Site} {s : Tracker},
    AtStart e.pieces sees sites s → nextIs next "=>" = false →
    ReadAs s (s.readAll next sites) (e.after sees s.scopes.size) e.scopes
      (cut (losesLast s next e) (e.reads sees s.scopes.size))
      (cut (losesLast s next e) (MarkedWord.named sites e.pieces))

/-- So are expressions with commas between them, in brackets. -/
def ListReadable (l : List Expr) : Prop :=
  ∀ {sees : String → Option ScopeId} (next : Option Token) {sites : List Site} {s : Tracker},
    AtStart (Expr.listPieces l) sees sites s → s.closedHeader = false →
    nextIs next "=>" = false → nextIs next ":" = false →
    s.top.kind ≠ .object → (∀ b ∈ s.openBodies, b.depth < s.depth) →
    ∃ after, ReadAs s (s.readAll next sites) after (Expr.listScopes l)
      (Expr.listReads sees s.scopes.size l) (MarkedWord.named sites (Expr.listPieces l))

lemma AtStart.left (h : AtStart (ps ++ qs) sees sites s) :
    ∃ xs ys, sites = xs ++ ys ∧ AtStart ps sees xs s ∧ Marked ys qs := by
  obtain ⟨xs, ys, rfl, hxs, hys⟩ := marked_append h.marked
  refine ⟨xs, ys, rfl, ⟨h.free, h.clear, h.sees, hxs, fun site hsite => h.calm site ?_⟩, hys⟩
  rw [List.head?_append, Option.mem_def.mp hsite]
  rfl

lemma Readable.complete {e : Expr} (h : Readable e) (next : Option Token)
    (hb : AtStart e.pieces sees sites s) (harrow : nextIs next "=>" = false)
    (hnext : nextIs next ":" = true → 0 < s.top.ternary) :
    ReadAs s (s.readAll next sites) (e.after sees s.scopes.size) e.scopes
      (e.reads sees s.scopes.size) (MarkedWord.named sites e.pieces) := by
  have hread := h next hb harrow
  rwa [losesLast_eq_false e hnext, cut_false, cut_false] at hread

lemma nextIs_of_word {w : Word} {q : String} (h : w.At site)
    (hw : ¬ (w.kind = .punctuator ∧ w.text = q)) : nextIs (some site.token) q = false := by
  simpa [nextIs, Token.isPunct, h.kind, h.text] using hw

lemma readable_name (x : String) : Readable (.name x) := by
  intro sees next sites s h harrow
  obtain ⟨site, rest, hsite, hrest, rfl⟩ := List.forall₂_cons_right_iff.mp h.marked
  cases hrest
  have hread := read_variable (s := s.unmarked) next h.free.unmarked h.clear hsite.word.kind harrow
  have hstep := step_of_read h.free.pendingBody (h.calm site rfl) hread
  change ReadAs s (s.step site next) _ _ _ _
  rw [hstep]
  change ReadAs s { (if losesLast s next (.name x) then s.unmarked else s.unmarked.named site) with
    before := site :: s.before } sees 0 (cut _ [(x, sees x)]) (cut _ [site.index])
  split
  · rename_i hlost
    rw [hlost]
    exact readAs_passed h.sees (h.clear.name hsite.word.kind)
  · rename_i hkept
    rw [Bool.not_eq_true] at hkept
    rw [hkept]
    exact readAs_named h.sees h.clear hsite.word

lemma readAs_group {inner : List Site} (hs : Free s) (hsees : Sees s s.current sees)
    (hk : kind ∈ [.paren, .square]) (hopen : ∀ n, s.step o n = s.opened kind o)
    (hc : (Word.punct p).At c) (hp : p ∈ [")", "]"])
    (hinner : ReadAs (s.opened kind o) ((s.opened kind o).readAll (some c.token) inner)
      after a f i) :
    ReadAs s (s.readAll next (o :: (inner ++ [c]))) sees a f i := by
  obtain ⟨n, hread⟩ := readAll_braces s next o c inner
  rw [hread, hopen]
  exact hinner.group _ hs hsees hk hc hp

lemma AtStart.opened (kind : FrameKind) (hs : Free s) (hsees : Sees s s.current sees)
    (hk : kind ∈ [.paren, .square, .header]) (ho : (Word.punct p).At o) (hp : p ∈ ["(", "["])
    (hsites : Marked sites ps) : AtStart ps sees sites (s.opened kind o) := by
  refine ⟨hs.opened hk o, clear_punct ho ?_, sees_opened hsees kind o, hsites,
    fun site _ => calm_of_begins rfl ho ?_⟩
  · simp only [List.mem_cons, List.not_mem_nil, or_false] at hp
    rcases hp with rfl | rfl <;> simp
  · simp only [List.mem_cons, List.not_mem_nil, or_false] at hp
    rcases hp with rfl | rfl <;> simp [Word.punct]

lemma marked_last {r : MarkedWord} (h : Marked sites (ps ++ [r])) :
    ∃ inner c, sites = inner ++ [c] ∧ Marked inner ps ∧ r.At c := by
  obtain ⟨inner, last, rfl, hinner, hlast⟩ := marked_append h
  obtain ⟨c, others, hc, hothers, rfl⟩ := List.forall₂_cons_right_iff.mp hlast
  cases hothers
  exact ⟨inner, c, rfl, hinner, hc⟩

lemma named_group {l r : MarkedWord} {inner : List Site} (hl : l.names = false)
    (hr : r.names = false)
    (h : Marked inner ps) :
    MarkedWord.named (o :: (inner ++ [c])) (l :: (ps ++ [r])) = MarkedWord.named inner ps := by
  simp [MarkedWord.named, hl, hr, MarkedWord.named_append h]

lemma nextIs_of_closing (hc : (Word.punct p).At c) (hp : p ∈ [")", "]", ",", ";"]) :
    nextIs (some c.token) ":" = false ∧ nextIs (some c.token) "=>" = false := by
  simp only [List.mem_cons, List.not_mem_nil, or_false] at hp
  rcases hp with rfl | rfl | rfl | rfl <;>
    exact ⟨nextIs_of_punct hc (by simp), nextIs_of_punct hc (by simp)⟩

lemma Readable.group {e : Expr} {inner : List Site} {q : String} (ih : Readable e)
    (next : Option Token) (hs : Free s) (hsees : Sees s s.current sees)
    (hk : kind ∈ [.paren, .square])
    (hopen : ∀ n, s.step o n = s.opened kind o) (ho : (Word.punct p).At o) (hp : p ∈ ["(", "["])
    (hinner : Marked inner e.pieces) (hc : (Word.punct q).At c) (hq : q ∈ [")", "]"]) :
    ReadAs s (s.readAll next (o :: (inner ++ [c]))) sees e.scopes (e.reads sees s.scopes.size)
      (MarkedWord.named inner e.pieces) := by
  have hbegins := AtStart.opened kind hs hsees (by simp at hk ⊢; tauto) ho hp hinner
  obtain ⟨hcolon, harrow⟩ := nextIs_of_closing hc (by simp at hq ⊢; tauto)
  have hread := ih.complete _ hbegins harrow fun h => by rw [hcolon] at h; cases h
  exact readAs_group hs hsees hk hopen hc hq hread

lemma ListReadable.group {l : List Expr} {inner : List Site} {q : String} (ih : ListReadable l)
    (next : Option Token) (hs : Free s) (hsees : Sees s s.current sees)
    (hk : kind ∈ [.paren, .square])
    (hopen : ∀ n, s.step o n = s.opened kind o) (ho : (Word.punct p).At o) (hp : p ∈ ["(", "["])
    (hinner : Marked inner (Expr.listPieces l)) (hc : (Word.punct q).At c) (hq : q ∈ [")", "]"]) :
    ReadAs s (s.readAll next (o :: (inner ++ [c]))) sees (Expr.listScopes l)
      (Expr.listReads sees s.scopes.size l) (MarkedWord.named inner (Expr.listPieces l)) := by
  have hbegins := AtStart.opened kind hs hsees (by simp at hk ⊢; tauto) ho hp hinner
  obtain ⟨hcolon, harrow⟩ := nextIs_of_closing hc (by simp at hq ⊢; tauto)
  have hkind : (s.opened kind o).top.kind ≠ .object := by
    simp only [List.mem_cons, List.not_mem_nil, or_false] at hk
    rcases hk with rfl | rfl <;> exact nofun
  obtain ⟨after, hread⟩ := ih _ hbegins rfl harrow hcolon hkind
    fun b hb => Nat.lt_succ_of_le (hs.bodies b hb)
  exact readAs_group hs hsees hk hopen hc hq hread

lemma readable_paren {e : Expr} (ih : Readable e) : Readable (.paren e) := by
  intro sees next sites s h _
  obtain ⟨o, rest, ho, hrest, rfl⟩ := List.forall₂_cons_right_iff.mp h.marked
  obtain ⟨inner, c, rfl, hinner, hc⟩ := marked_last hrest
  rw [losesLast_of_not_name rfl, cut_false, cut_false, Expr.pieces, named_group rfl rfl hinner]
  exact ih.group next h.free h.sees (by simp)
    (fun n => step_openGroup h.free h.clear ho.word ho.beforeArrow) ho.word (by simp) hinner hc.word
    (by simp)

lemma readable_array {items : List Expr} (ih : ListReadable items) : Readable (.array items) := by
  intro sees next sites s h _
  obtain ⟨o, rest, ho, hrest, rfl⟩ := List.forall₂_cons_right_iff.mp h.marked
  obtain ⟨inner, c, rfl, hinner, hc⟩ := marked_last hrest
  rw [losesLast_of_not_name rfl, cut_false, cut_false, Expr.pieces, named_group rfl rfl hinner]
  exact ih.group next h.free h.sees (by simp) (fun n => step_openSquare h.free ho.word)
    ho.word (by simp)
    hinner hc.word (by simp)

/-- An expression is read, and something follows that begins with no arrow, and with a colon only in
a conditional. -/
lemma Readable.first {e : Expr} (ih : Readable e) {w : MarkedWord} {qs : List MarkedWord}
    (h : AtStart (e.pieces ++ w :: qs) sees sites s) (harrow : w.isPunct "=>" = false)
    (hcolon : w.isPunct ":" = true → 0 < s.top.ternary) :
    ∃ xs site rest t, sites = xs ++ site :: rest ∧ Marked xs e.pieces ∧ w.At site ∧
      Marked rest qs ∧ (∀ next, s.readAll next sites = t.readAll next (site :: rest)) ∧
      ReadAs s t (e.after sees s.scopes.size) e.scopes (e.reads sees s.scopes.size)
        (MarkedWord.named xs e.pieces) := by
  obtain ⟨xs, ys, rfl, hxs, hys⟩ := h.left
  obtain ⟨site, rest, hsite, hrest, rfl⟩ := List.forall₂_cons_right_iff.mp hys
  refine ⟨xs, site, rest, s.readAll (some site.token) xs, rfl, hxs.marked, hsite, hrest,
    fun next => readAll_append s next xs (site :: rest), ?_⟩
  have hnext (q : String) : nextIs (some site.token) q = w.isPunct q :=
    Nested.isPunct_iff hsite.word
  exact ih.complete _ hxs ((hnext "=>").trans harrow) fun hc => hcolon ((hnext ":").symm.trans hc)

lemma readable_call {e : Expr} {args : List Expr} (ihe : Readable e) (ih : ListReadable args) :
    Readable (.call e args) := by
  intro sees next sites s h _
  obtain ⟨xs, o, rest, t, rfl, hxs, ho, hrest, hread, he⟩ := ihe.first h rfl nofun
  obtain ⟨inner, c, rfl, hinner, hc⟩ := marked_last hrest
  have hfree := he.free h.free
  have hargs := ih.group next hfree he.sees (by simp)
    (fun n => step_openGroup hfree he.clear ho.word ho.beforeArrow) ho.word (by simp) hinner hc.word
    (by simp)
  rw [he.adds.size] at hargs
  rw [losesLast_of_not_name rfl, cut_false, cut_false, Expr.pieces, MarkedWord.named_append hxs,
    named_group rfl rfl hinner, hread]
  exact he.trans hargs

lemma readable_index {e k : Expr} (ihe : Readable e) (ih : Readable k) : Readable (.index e k) := by
  intro sees next sites s h _
  obtain ⟨xs, o, rest, t, rfl, hxs, ho, hrest, hread, he⟩ := ihe.first h rfl nofun
  obtain ⟨inner, c, rfl, hinner, hc⟩ := marked_last hrest
  have hfree := he.free h.free
  have hindex := ih.group next hfree he.sees (by simp)
    (fun n => step_openSquare hfree ho.word) ho.word (by simp) hinner hc.word (by simp)
  rw [he.adds.size] at hindex
  rw [losesLast_of_not_name rfl, cut_false, cut_false, Expr.pieces, MarkedWord.named_append hxs,
    named_group rfl rfl hinner, hread]
  exact he.trans hindex

/-- The last part of an expression, after what comes before it. -/
lemma Readable.last {e r : Expr} (ih : Readable r) (next : Option Token) (hfree : Free t)
    (h : ReadAs s t after a f i) (hrest : Marked sites r.pieces)
    (hcalm : ∀ site ∈ sites.head?, Calm t site)
    (harrow : nextIs next "=>" = false) (hprev : prevKeyword? t.before ≠ some .kwCase)
    (he : ∀ x, e ≠ .name x) (hr : e.endsInName = r.endsInName) :
    ReadAs s (t.readAll next sites) (r.after after (s.scopes.size + a)) (a + r.scopes)
      (cut (losesLast s next e) (f ++ r.reads after (s.scopes.size + a)))
      (cut (losesLast s next e) (i ++ MarkedWord.named sites r.pieces)) := by
  have hread := ih next ⟨hfree, h.clear, h.sees, hrest, hcalm⟩ harrow
  rw [losesLast_of_trailing (e := e) h.alike.top hprev he hr, h.adds.size] at hread
  have hname (hlost : losesLast s next e = true) : r.endsInName = true := by
    rw [← hr]
    by_contra hno
    rw [losesLast_of_not_name (by simpa using hno)] at hlost
    cases hlost
  rw [cut_append f fun hlost => Expr.reads_ne_nil (hname hlost) _ _,
    cut_append i fun hlost => ?_]
  · exact h.trans hread
  · obtain ⟨ps, p, hpieces, hnames⟩ := Expr.exists_last_name (hname hlost)
    exact MarkedWord.named_ne_nil hrest ⟨p, by simp [hpieces], hnames⟩

lemma step_operator {w : Word} (hs : Free s) (hdot : afterDot s.before = false)
    (hhash : prevIs s.before "#" = false) (hc : Calm s site) (hsite : w.At site)
    (hw : w ∈ operators) : s.step site next = s.passed site := by
  rw [step_of_read hs.pendingBody hc (read_operator hs.unmarked hdot hhash hsite hw)]
  rfl

/-- Before an operand stands a punctuator or a keyword that is none itself. -/
lemma mem_prefixes {w : Word} (h : w ∈ Word.unary ++ Word.binary) :
    (w.kind = .punctuator ∧ w.text ∉ [".", "?.", "#", ":", "=>"] ∧
        (w ∉ Word.updates → w.text ∉ [")", "]", "\x7d", "++", "--"])) ∨
      ∃ k ∈ [Keyword.kwTypeof, .kwVoid, .kwDelete, .kwIn, .kwInstanceof], w.kind = .keyword k := by
  revert w
  decide

lemma mem_binary {w : Word} (h : w ∈ Word.binary) :
    (w.kind = .punctuator ∧ w.text ∉ ["\x7b", "++", "--", "!", "~", "#", "@"]) ∨
      ∃ k ∈ [Keyword.kwIn, .kwInstanceof], w.kind = .keyword k := by
  revert w
  decide

lemma not_colon_binary {w : Word} (h : w ∈ Word.binary) :
    (MarkedWord.other w).isPunct ":" = false ∧ w ∉ Word.updates := by
  revert w
  decide

lemma not_colon_update {w : Word} (h : w ∈ Word.updates) :
    (MarkedWord.other w).stay.isPunct ":" = false := by
  revert w
  decide

lemma mem_dots {w : Word} (h : w ∈ Word.dots) :
    (MarkedWord.other w).isPunct ":" = false ∧ w.kind = .punctuator ∧
      w.text ∉ ["\x7b", "++", "--", "!", "~", "#", "@"] ∧ (w.text = "." ∨ w.text = "?.") := by
  revert w
  decide

lemma clear_marks {before : List Site} {w : Word} (h : Clear before) (hsite : w.At site)
    (hw : w ∈ Word.unary ++ Word.binary) :
    Clear (site :: before) ∧ prevKeyword? (site :: before) ≠ some .kwCase := by
  rcases mem_prefixes hw with ⟨hk, ht, -⟩ | ⟨k, hk, hkind⟩
  · have hpunct : (Word.punct w.text).At site := ⟨hsite.kind.trans hk, hsite.text, nofun⟩
    refine ⟨clear_punct hpunct (by simp at ht ⊢; tauto), ?_⟩
    simp [prevKeyword?, hpunct.kind, Word.punct]
  · have hkeyword : site.token.kind = .keyword k := hsite.kind.trans hkind
    rw [prevKeyword_cons hkeyword h.dot]
    simp only [List.mem_cons, List.not_mem_nil, or_false] at hk
    refine ⟨clear_keyword h.dot hkeyword ?_, ?_⟩ <;>
      rcases hk with rfl | rfl | rfl | rfl | rfl <;> simp [Keyword.hasHeader]

lemma calm_after_prefix {before : List Site} {w : Word} {q : Site} (hb : s.before = q :: before)
    (hq : w.At q) (hw : w ∈ Word.unary ++ Word.binary) (hupdates : w ∉ Word.updates) :
    Calm s site := by
  refine calm_of_not_operand hb ?_
  rcases mem_prefixes hw with ⟨hk, -, ht⟩ | ⟨k, hk, hkind⟩
  · simpa [Token.endsOperand, hq.kind, hk, hq.text] using ht hupdates
  · simp only [List.mem_cons, List.not_mem_nil, or_false] at hk
    rcases hk with rfl | rfl | rfl | rfl | rfl <;>
      simp [Token.endsOperand, hq.kind, hkind, Keyword.isOperand]

lemma calm_binary {w : Word} (hsite : w.At site) (hw : w ∈ Word.binary) : Calm s site := by
  refine calm_of_not_starts ?_
  rcases mem_binary hw with ⟨hk, ht⟩ | ⟨k, hk, hkind⟩
  · simpa [Token.startsStatement, hsite.kind, hk, hsite.text] using ht
  · simp only [List.mem_cons, List.not_mem_nil, or_false] at hk
    rcases hk with rfl | rfl <;>
      simp [Token.startsStatement, hsite.kind, hkind, Keyword.continuesStatement]

lemma readable_unary {op : { w // w ∈ Word.unary }} {e : Expr} (ih : Readable e) :
    Readable (.unary op e) := by
  intro sees next sites s h harrow
  obtain ⟨site, rest, hsite, hrest, rfl⟩ := List.forall₂_cons_right_iff.mp h.marked
  have hmem : op.1 ∈ Word.unary ++ Word.binary := List.mem_append_left _ op.2
  obtain ⟨hclear, hprev⟩ := clear_marks h.clear hsite.word hmem
  have hstep (n : Option Token) : s.step site n = s.passed site :=
    step_operator (w := op) h.free h.clear.dot h.clear.hash (h.calm site rfl) hsite.word (by
      unfold operators
      simp [op.2])
  have hfree : Free (s.passed site) := h.free.passed site
  have hmarked : Marked rest e.pieces ∧ ∀ x ∈ rest.head?, Calm (s.passed site) x := by
    split at hrest
    · exact ⟨(marked_stay hrest).1, fun x hx => calm_of_line ((marked_stay hrest).2 x hx)⟩
    · rename_i hupdates
      exact ⟨hrest, fun x _ => calm_after_prefix rfl hsite.word hmem hupdates⟩
  have hlast := ih.last (e := .unary op e) next hfree (readAs_passed h.sees hclear)
    hmarked.1 hmarked.2 harrow hprev nofun rfl
  have hnamed : MarkedWord.named (site :: rest) (Expr.unary op e).pieces
      = [] ++ MarkedWord.named rest e.pieces := by
    rw [Expr.pieces, MarkedWord.named]
    simp only [MarkedWord.other, Bool.false_eq_true, if_false, List.nil_append]
    split
    · exact MarkedWord.named_stay rest e.pieces
    · rfl
  rw [readAll, hstep, hnamed]
  simpa [Expr.scopes, Expr.reads, Expr.after] using hlast

lemma readable_update {op : { w // w ∈ Word.updates }} {e : Expr} (ih : Readable e) :
    Readable (.update e op) := by
  intro sees next sites s h _
  have hop := Expr.isPlain_update op.2
  have hcolon := not_colon_update op.2
  obtain ⟨xs, site, rest, t, rfl, hxs, hsite, hrest, hread, he⟩ := ih.first h hop.2
    fun hc => by rw [hcolon] at hc; cases hc
  cases hrest
  have hfree := he.free h.free
  have hword : op.1.At site := ⟨hsite.word.kind, hsite.word.text, fun _ => hsite.word.line rfl⟩
  have hstep : t.step site next = t.passed site :=
    step_operator hfree he.clear.dot he.clear.hash (calm_of_line (hsite.word.line rfl)) hword (by
      unfold operators
      simp [op.2])
  have hclear := (clear_marks he.clear hword (by
    unfold Word.unary
    simp [op.2])).1
  have hnamed :
      MarkedWord.named (xs ++ [site]) (Expr.update e op).pieces = MarkedWord.named xs e.pieces := by
    rw [Expr.pieces, MarkedWord.named_append hxs]
    simp [MarkedWord.named, MarkedWord.other, MarkedWord.stay]
  rw [losesLast_of_not_name rfl, cut_false, cut_false, hread, hnamed]
  change ReadAs s (t.step site next) _ _ _ _
  rw [hstep]
  exact he.passed rfl hclear

lemma readable_binary {op : { w // w ∈ Word.binary }} {l r : Expr} (ihl : Readable l)
    (ihr : Readable r) : Readable (.binary op l r) := by
  intro sees next sites s h harrow
  have hmem : op.1 ∈ Word.unary ++ Word.binary := List.mem_append_right _ op.2
  obtain ⟨hcolon, hupdates⟩ := not_colon_binary op.2
  obtain ⟨xs, site, rest, t, rfl, hxs, hsite, hrest, hread, hl⟩ := ihl.first h
    (Expr.isPlain_binary op.2).2 fun hc => by rw [hcolon] at hc; cases hc
  have hfree := hl.free h.free
  obtain ⟨hclear, hprev⟩ := clear_marks hl.clear hsite.word hmem
  have hstep (n : Option Token) : t.step site n = t.passed site :=
    step_operator (w := op) hfree hl.clear.dot hl.clear.hash (calm_binary hsite.word op.2)
      hsite.word (by
      unfold operators
      simp [op.2])
  have hpassed := hl.passed (u := t.passed site) rfl hclear
  have hlast := ihr.last (e := .binary op l r) next (hpassed.free h.free) hpassed hrest
    (fun x _ => calm_after_prefix rfl hsite.word hmem hupdates) harrow hprev nofun rfl
  have hnamed : MarkedWord.named (xs ++ site :: rest) (Expr.binary op l r).pieces
      = MarkedWord.named xs l.pieces ++ MarkedWord.named rest r.pieces := by
    rw [Expr.pieces, MarkedWord.named_append hxs]
    simp [MarkedWord.named, MarkedWord.other]
  rw [hread, readAll, hstep, hnamed]
  exact hlast

lemma readable_member {dot : { w // w ∈ Word.dots }} {e : Expr} (x : String) (ih : Readable e) :
    Readable (.member e dot x) := by
  intro sees next sites s h _
  obtain ⟨hcolon, hkind, hstarts, htext⟩ := mem_dots dot.2
  have harrow := (Expr.isPlain_dot dot.2).2
  obtain ⟨xs, site, rest, t, rfl, hxs, hsite, hrest, hread, he⟩ := ih.first h harrow
    fun hc => by rw [hcolon] at hc; cases hc
  obtain ⟨y, others, hy, hothers, rfl⟩ := List.forall₂_cons_right_iff.mp hrest
  cases hothers
  have hfree := he.free h.free
  have hpunct : site.token.kind = .punctuator := hsite.word.kind.trans hkind
  have hstep (n : Option Token) : t.step site n = t.passed site :=
    step_operator (w := dot) hfree he.clear.dot he.clear.hash (calm_of_word hsite.word
      ⟨hkind, hstarts⟩)
      hsite.word (by
        unfold operators
        simp [dot.2])
  have hdot : afterDot (site :: t.before) = true := by
    rcases htext with ht | ht <;>
      simp [afterDot, Token.isPunct, hpunct, hsite.word.text.trans ht]
  have hname : (t.passed site).step y next = (t.passed site).passed y := by
    have hcalm : Calm (t.passed site) y := calm_of_not_operand rfl (by
      rcases htext with ht | ht <;>
        simp [Token.endsOperand, hpunct, hsite.word.text.trans ht])
    rw [step_of_read (s := t.passed site) hfree.pendingBody hcalm
      (read_property (s := (t.passed site).unmarked) hy.word.kind hdot)]
    rfl
  have hnamed : MarkedWord.named (xs ++ [site, y]) (Expr.member e dot x).pieces
      = MarkedWord.named xs e.pieces := by
    rw [Expr.pieces, MarkedWord.named_append hxs]
    simp [MarkedWord.named, MarkedWord.other]
  rw [losesLast_of_not_name rfl, cut_false, cut_false, hread, hnamed, readAll, hstep]
  change ReadAs s ((t.passed site).step y next) _ _ _ _
  rw [hname]
  exact he.passed rfl (clear_property hy.word.kind hpunct)

lemma readable_cond {test yes no : Expr} (iht : Readable test) (ihy : Readable yes)
    (ihn : Readable no) : Readable (.cond test yes no) := by
  intro sees next sites s h harrow
  obtain ⟨xs, q, rest, t, rfl, hxs, hq, hrest, hread, ht⟩ := iht.first h rfl nofun
  have hfree := ht.free h.free
  -- the question mark, and what stands before the colon
  have hbegins : AtStart (yes.pieces ++ .punct ":" :: no.pieces)
    (test.after sees s.scopes.size) rest
      (t.asked q) :=
    ⟨hfree.asked q, clear_punct hq.word (by simp), ⟨ht.sees.lt, ht.sees.refersTo⟩, hrest,
      fun x _ => calm_of_begins rfl hq.word
        (by simp [MarkedWord.punct, MarkedWord.other, Word.punct])⟩
  obtain ⟨ys, c, zs, u, rfl, hys, hc, hzs, hread', hy⟩ := ihy.first hbegins rfl
    fun _ => Nat.succ_pos _
  -- the colon, and what stands after it
  have hcolon (n : Option Token) := hy.colon n hfree hc.word
  have hsize : (t.asked q).scopes.size = s.scopes.size + test.scopes := ht.adds.size
  rw [hsize] at hcolon
  have hboth := ht.trans (hcolon ((zs.head?.map Site.token).or next))
  have hbefore : (u.step c ((zs.head?.map Site.token).or next)).before = c :: u.before :=
    before_step
  have hlast := ihn.last (e := .cond test yes no) next (hboth.free h.free) hboth hzs
    (fun x _ =>
      calm_of_begins hbefore hc.word (by simp [MarkedWord.punct, MarkedWord.other, Word.punct]))
    harrow
    (by simp [hbefore, prevKeyword?, hc.word.kind, MarkedWord.punct, MarkedWord.other, Word.punct])
    (fun _ h => by cases h) rfl
  have hnamed : MarkedWord.named (xs ++ q :: (ys ++ c :: zs)) (Expr.cond test yes no).pieces
      = MarkedWord.named xs test.pieces ++ MarkedWord.named ys yes.pieces
        ++ MarkedWord.named zs no.pieces := by
    rw [Expr.pieces, MarkedWord.named_append hxs]
    simp [MarkedWord.named, MarkedWord.punct, MarkedWord.other, MarkedWord.named_append hys]
  rw [hread, readAll, step_question hfree hq.word, hread', readAll, hnamed, Expr.reads,
    ← List.append_assoc, Expr.scopes, Expr.after, Nat.add_assoc s.scopes.size]
  exact hlast

lemma Readable.body {e body : Expr} (ih : Readable body) (next : Option Token) (hs : Free s)
    (h : ReadAs s t after a f i) (hb : t.before = c :: u.before) (hc : (Word.punct "=>").At c)
    (hsites : Marked sites body.pieces) (harrow : nextIs next "=>" = false)
    (he : ∀ x, e ≠ .name x) (hr : e.endsInName = body.endsInName) :
    ReadAs s (t.readAll next sites) (body.after after (s.scopes.size + a)) (a + body.scopes)
      (cut (losesLast s next e) (f ++ body.reads after (s.scopes.size + a)))
      (cut (losesLast s next e) (i ++ MarkedWord.named sites body.pieces)) :=
  ih.last next (h.free hs) h hsites (fun x _ => calm_of_begins hb hc (by simp [Word.punct])) harrow
    (by simp [hb, prevKeyword?, hc.kind, Word.punct]) he hr

lemma nextIs_brace {e : Expr} (next : Option Token) (h : Marked sites e.pieces) :
    nextIs ((sites.head?.map Site.token).or next) "\x7b" = false := by
  obtain ⟨p, ps, he, hp⟩ := e.exists_lead
  rw [he] at h
  obtain ⟨site, rest, hsite, -, rfl⟩ := List.forall₂_cons_right_iff.mp h
  exact (Nested.isPunct_iff hsite.word).trans (hp.not_punct (by simp))

lemma readable_arrow {body : Expr} (x : String) (ih : Readable body) :
    Readable (.arrow x body) := by
  intro sees next sites s h harrow
  obtain ⟨site, rest, hsite, hrest, rfl⟩ := List.forall₂_cons_right_iff.mp h.marked
  obtain ⟨c, zs, hc, hzs, rfl⟩ := List.forall₂_cons_right_iff.mp hrest
  have hnext : nextIs (some c.token) "=>" = true := Nested.isPunct_iff hc.word
  obtain ⟨hd, harrowNext⟩ := step_parameter h.free h.clear (h.calm site rfl) hsite.word hnext
  have hhead := harrowNext.readAs h.free h.sees hd hc.word (nextIs_brace next hzs)
  have hlast := ih.body (e := .arrow x body) next h.free hhead before_step hc.word hzs harrow
    nofun rfl
  rw [Expr.scopes, Nat.add_comm body.scopes 1]
  exact hlast

lemma readable_arrows {body : Expr} (params : List String) (ih : Readable body) :
    Readable (.arrows params body) := by
  intro sees next sites s h harrow
  obtain ⟨o, rest, ho, hrest, rfl⟩ := List.forall₂_cons_right_iff.mp h.marked
  obtain ⟨names, others, rfl, hnames, hothers⟩ := marked_append hrest
  obtain ⟨q, more, hq, hmore, rfl⟩ := List.forall₂_cons_right_iff.mp hothers
  obtain ⟨c, zs, hc, hzs, rfl⟩ := List.forall₂_cons_right_iff.mp hmore
  obtain ⟨hd, hamong⟩ := step_openParams (((names ++ q :: c :: zs).head?.map Site.token).or next)
    h.free h.clear ho.word ho.beforeArrow
  obtain ⟨hd, expect, hamong⟩ := readAll_paramNames (some q.token) h.free hd hamong
    before_step ho.word
    (by simp) hnames
  obtain ⟨hd, hclosed⟩ := step_closeParams (some c.token) h.free hd hamong hq.word
  have hhead := hclosed.readAs h.free h.sees hd hc.word (nextIs_brace next hzs)
  have hlast := ih.body (e := .arrows params body) next h.free hhead before_step hc.word hzs
    harrow nofun rfl
  have hnamed : MarkedWord.named (o :: (names ++ q :: c :: zs)) (Expr.arrows params body).pieces
      = [] ++ MarkedWord.named names (MarkedWord.listed params) ++ MarkedWord.named zs
        body.pieces := by
    simp [Expr.pieces, MarkedWord.named, MarkedWord.openParams, MarkedWord.punct, MarkedWord.other,
      MarkedWord.named_append hnames]
  rw [readAll, readAll_append, hnamed, Expr.scopes, Nat.add_comm body.scopes 1]
  exact hlast

lemma listReadable_nil : ListReadable [] := by
  intro sees next sites s h hclosed _ _ _ _
  have hmarked := h.marked
  cases hmarked
  exact ⟨sees, .refl h.sees h.clear hclosed⟩

lemma listReadable_single {e : Expr} (ih : Readable e) : ListReadable [e] := by
  intro sees next sites s h _ harrow hcolon _ _
  have hread := ih.complete next h harrow fun hc => by rw [hcolon] at hc; cases hc
  refine ⟨e.after sees s.scopes.size, ?_⟩
  simpa [Expr.listScopes, Expr.listReads, Expr.listPieces] using hread

lemma listReadable_cons {e e' : Expr} {l : List Expr} (ih : Readable e)
    (ihl : ListReadable (e' :: l)) : ListReadable (e :: e' :: l) := by
  intro sees next sites s h _ harrow hcolon hkind hout
  obtain ⟨xs, c, rest, t, rfl, hxs, hc, hrest, hread, he⟩ := ih.first h rfl nofun
  obtain ⟨hitem, hopen⟩ := he.comma ((rest.head?.map Site.token).or next) h.free h.sees hkind
    hout hc.word
  have hbefore : (t.step c ((rest.head?.map Site.token).or next)).before = c :: t.before :=
    before_step
  rw [hread, readAll]
  generalize t.step c ((rest.head?.map Site.token).or next) = u at hitem hopen hbefore ⊢
  obtain ⟨after, hlist⟩ := ihl next ⟨hitem.free h.free, hitem.clear, hitem.sees, hrest,
    fun x _ => calm_of_begins hbefore hc.word
      (by simp [MarkedWord.punct, MarkedWord.other, Word.punct])⟩
    hitem.closed harrow hcolon (by rw [hitem.alike.top]; exact hkind)
    (by rw [hopen, hitem.alike.depth]; exact hout)
  have hnamed : MarkedWord.named (xs ++ c :: rest) (Expr.listPieces (e :: e' :: l))
      = MarkedWord.named xs e.pieces ++ MarkedWord.named rest (Expr.listPieces (e' :: l)) := by
    rw [Expr.listPieces, MarkedWord.named_append hxs]
    · simp [MarkedWord.named, MarkedWord.punct, MarkedWord.other]
  rw [hitem.adds.size] at hlist
  rw [hnamed]
  exact ⟨after, hitem.trans hlist⟩

mutual

/-- **What the tracker reads in an expression** is what its words say. -/
theorem readable : ∀ e : Expr, Readable e
  | .name x => readable_name x
  | .paren e => readable_paren (readable e)
  | .call f args => readable_call (readable f) (listReadable args)
  | .array items => readable_array (listReadable items)
  | .cond test yes no => readable_cond (readable test) (readable yes) (readable no)
  | .arrow x body => readable_arrow x (readable body)
  | .arrows params body => readable_arrows params (readable body)
  | .unary _ e => readable_unary (readable e)
  | .update e _ => readable_update (readable e)
  | .binary _ l r => readable_binary (readable l) (readable r)
  | .member e _ x => readable_member x (readable e)
  | .index e k => readable_index (readable e) (readable k)

theorem listReadable : ∀ l : List Expr, ListReadable l
  | [] => listReadable_nil
  | [e] => listReadable_single (readable e)
  | e :: e' :: l => listReadable_cons (readable e) (listReadable (e' :: l))

end

end Tracker

end Minify
