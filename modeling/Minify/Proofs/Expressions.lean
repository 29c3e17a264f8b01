import Minify.Proofs.LoopPrograms

/-!
Expressions over names, and what their names refer to.

An expression is a tree here, and for the tracker it is no more than the words of its text. What its
names refer to is said twice. By the tree, the body of an arrow function is a part of it. By the
words, the body goes on until a comma or a bracket around it ends it, and not at the colon of a
conditional around it. Where both say the same is decided by the names free in what follows the
colon.
-/

namespace Minify

namespace Word

/-- The operators that change their operand. Next to one no line ends. -/
def updates : List Word := ["++", "--"].map punct

def unary : List Word :=
  ["+", "-", "!", "~"].map punct ++ updates ++
    [keyword .kwTypeof "typeof", keyword .kwVoid "void", keyword .kwDelete "delete"]

def binary : List Word :=
  ["**", "*", "/", "%", "+", "-", "<<", ">>", ">>>", "<", ">", "<=", ">=", "==", "!=", "===", "!==",
    "&", "^", "|", "&&", "||", "??", "=", "**=", "*=", "/=", "%=", "+=", "-=", "<<=", ">>=", ">>>=",
    "&=", "^=", "|=", "&&=", "||=", "??="].map punct ++
    [keyword .kwIn "in", keyword .kwInstanceof "instanceof"]

def dots : List Word := [".", "?."].map punct

end Word

/-- Expressions over names. -/
inductive Expr where
  | name (x : String)
  /-- `(e)` -/
  | paren (e : Expr)
  /-- `f(args)` -/
  | call (f : Expr) (args : List Expr)
  /-- `[items]` -/
  | array (items : List Expr)
  /-- `test ? yes : no` -/
  | cond (test yes no : Expr)
  /-- `x => body` -/
  | arrow (x : String) (body : Expr)
  /-- `(params) => body` -/
  | arrows (params : List String) (body : Expr)
  | unary (op : { w // w ∈ Word.unary }) (e : Expr)
  /-- `e++` -/
  | update (e : Expr) (op : { w // w ∈ Word.updates })
  | binary (op : { w // w ∈ Word.binary }) (l r : Expr)
  /-- `e.x` -/
  | member (e : Expr) (dot : { w // w ∈ Word.dots }) (x : String)
  /-- `e[i]` -/
  | index (e i : Expr)

/-- A word of a text with what the text makes of it: whether it names a variable, and whether it is
a parenthesis that opens the parameters of an arrow. -/
structure MarkedWord where
  word : Word
  names : Bool
  beforeArrow : Bool
  deriving DecidableEq, Repr

namespace MarkedWord

/-- A name of a variable. -/
def name (x : String) : MarkedWord := ⟨.name x, true, false⟩

def other (w : Word) : MarkedWord := ⟨w, false, false⟩

def punct (p : String) : MarkedWord := other (.punct p)

def openParams : MarkedWord := ⟨.punct "(", false, true⟩

def stay (p : MarkedWord) : MarkedWord := { p with word := { p.word with sameLine := true } }

def listed : List String → List MarkedWord
  | [] => []
  | [x] => [name x]
  | x :: xs => name x :: punct "," :: listed xs

/-- Of some sites, one for each piece, the indices of those that name variables. -/
def named : List Site → List MarkedWord → List Nat
  | site :: sites, p :: ps =>
    if p.names then site.index :: named sites ps else named sites ps
  | _, _ => []

end MarkedWord

namespace Expr

mutual

/-- The words of an expression. The operand of an operator that changes it stands on its line. -/
def pieces : Expr → List MarkedWord
  | name x => [.name x]
  | paren e => .punct "(" :: (pieces e ++ [.punct ")"])
  | call f args => pieces f ++ .punct "(" :: (listPieces args ++ [.punct ")"])
  | array items => .punct "[" :: (listPieces items ++ [.punct "]"])
  | cond test yes no => pieces test ++ .punct "?" :: (pieces yes ++ .punct ":" :: pieces no)
  | arrow x body => .name x :: .punct "=>" :: pieces body
  | arrows params body =>
    .openParams :: (MarkedWord.listed params ++ .punct ")" :: .punct "=>" :: pieces body)
  | unary op e =>
    .other op :: if op.1 ∈ Word.updates then (pieces e).modifyHead MarkedWord.stay else pieces e
  | update e op => pieces e ++ [(MarkedWord.other op).stay]
  | binary op l r => pieces l ++ .other op :: pieces r
  | member e dot x => pieces e ++ [.other dot, .other (.name x)]
  | index e i => pieces e ++ .punct "[" :: (pieces i ++ [.punct "]"])

def listPieces : List Expr → List MarkedWord
  | [] => []
  | [e] => pieces e
  | e :: e' :: rest => pieces e ++ .punct "," :: listPieces (e' :: rest)

end

/-! ### What the names refer to -/

def inside (params : List String) (n : ScopeId) (sees : String → Option ScopeId) (name : String) :
    Option ScopeId :=
  if name ∈ params then some n else sees name

mutual

/-- How many arrows there are in an expression. Each has a scope. -/
def scopes : Expr → Nat
  | name _ => 0
  | paren e => scopes e
  | call f args => scopes f + listScopes args
  | array items => listScopes items
  | cond test yes no => scopes test + scopes yes + scopes no
  | arrow _ body => scopes body + 1
  | arrows _ body => scopes body + 1
  | unary _ e => scopes e
  | update e _ => scopes e
  | binary _ l r => scopes l + scopes r
  | member e _ _ => scopes e
  | index e i => scopes e + scopes i

def listScopes : List Expr → Nat
  | [] => 0
  | e :: rest => scopes e + listScopes rest

end

mutual

/-- The names of an expression in their order, each with the scope it refers to: that of the
innermost arrow around it that has it as a parameter, and otherwise what it refers to around the
expression, which is `sees`. The first scope of the expression has the number `n`. -/
def refers (sees : String → Option ScopeId) (n : ScopeId) : Expr → List (String × Option ScopeId)
  | name x => [(x, sees x)]
  | paren e => refers sees n e
  | call f args => refers sees n f ++ listRefers sees (n + f.scopes) args
  | array items => listRefers sees n items
  | cond test yes no =>
    refers sees n test ++ (refers sees (n + test.scopes) yes ++
      refers sees (n + test.scopes + yes.scopes) no)
  | arrow x body => (x, some n) :: refers (inside [x] n sees) (n + 1) body
  | arrows params body =>
    params.map (fun x => (x, some n)) ++ refers (inside params n sees) (n + 1) body
  | unary _ e => refers sees n e
  | update e _ => refers sees n e
  | binary _ l r => refers sees n l ++ refers sees (n + l.scopes) r
  | member e _ _ => refers sees n e
  | index e i => refers sees n e ++ refers sees (n + e.scopes) i

def listRefers (sees : String → Option ScopeId) (n : ScopeId) :
    List Expr → List (String × Option ScopeId)
  | [] => []
  | e :: rest => refers sees n e ++ listRefers sees (n + e.scopes) rest

end

/-! ### By the words -/

/-- What a name refers to right after the expression, when no arrow has ended whose body may go on.
-/
def after (sees : String → Option ScopeId) (n : ScopeId) : Expr → String → Option ScopeId
  | name _ => sees
  | paren _ => sees
  | call f _ => after sees n f
  | array _ => sees
  | cond test yes no =>
    after (after (after sees n test) (n + test.scopes) yes) (n + test.scopes + yes.scopes) no
  | arrow x body => after (inside [x] n sees) (n + 1) body
  | arrows params body => after (inside params n sees) (n + 1) body
  | unary _ e => after sees n e
  | update e _ => after sees n e
  | binary _ l r => after (after sees n l) (n + l.scopes) r
  | member e _ _ => after sees n e
  | index e _ => after sees n e

mutual

/-- The names of an expression, each with what it refers to when the bodies of arrows go on until a
comma or a bracket ends them. -/
def reads (sees : String → Option ScopeId) (n : ScopeId) : Expr → List (String × Option ScopeId)
  | name x => [(x, sees x)]
  | paren e => reads sees n e
  | call f args => reads sees n f ++ listReads (f.after sees n) (n + f.scopes) args
  | array items => listReads sees n items
  | cond test yes no =>
    reads sees n test ++ (reads (test.after sees n) (n + test.scopes) yes ++
      reads (yes.after (test.after sees n) (n + test.scopes)) (n + test.scopes + yes.scopes) no)
  | arrow x body => (x, some n) :: reads (inside [x] n sees) (n + 1) body
  | arrows params body =>
    params.map (fun x => (x, some n)) ++ reads (inside params n sees) (n + 1) body
  | unary _ e => reads sees n e
  | update e _ => reads sees n e
  | binary _ l r => reads sees n l ++ reads (l.after sees n) (n + l.scopes) r
  | member e _ _ => reads sees n e
  | index e i => reads sees n e ++ reads (e.after sees n) (n + e.scopes) i

def listReads (sees : String → Option ScopeId) (n : ScopeId) :
    List Expr → List (String × Option ScopeId)
  | [] => []
  | e :: rest => reads sees n e ++ listReads sees (n + e.scopes) rest

end

/-! ### Where both say the same -/

/-- A conditional or an arrow stands in parentheses where an operand is wanted. -/
def isOperand : Expr → Bool
  | cond .. | arrow .. | arrows .. => false
  | _ => true

mutual

/-- What is called, tested, or an operand of an operator is a conditional or an arrow only in
parentheses. -/
def parenthesised : Expr → Bool
  | name _ => true
  | paren e => parenthesised e
  | call f args => f.isOperand && parenthesised f && listParenthesised args
  | array items => listParenthesised items
  | cond test yes no =>
    test.isOperand && parenthesised test && parenthesised yes && parenthesised no
  | arrow _ body => parenthesised body
  | arrows _ body => parenthesised body
  | unary _ e => e.isOperand && parenthesised e
  | update e _ => e.isOperand && parenthesised e
  | binary _ l r => l.isOperand && r.isOperand && parenthesised l && parenthesised r
  | member e _ _ => e.isOperand && parenthesised e
  | index e i => e.isOperand && parenthesised e && parenthesised i

def listParenthesised : List Expr → Bool
  | [] => true
  | e :: rest => parenthesised e && listParenthesised rest

end

/-- The parameters of the arrows in the expression, outside its brackets, whose bodies go on when it
ends. -/
def trailing : Expr → List String
  | cond _ yes no => trailing yes ++ trailing no
  | arrow x body => x :: trailing body
  | arrows params body => params ++ trailing body
  | _ => []

mutual

/-- The names that no arrow in the expression has as a parameter around them. -/
def free : Expr → List String
  | name x => [x]
  | paren e => free e
  | call f args => free f ++ listFree args
  | array items => listFree items
  | cond test yes no => free test ++ (free yes ++ free no)
  | arrow x body => (free body).filter (· ∉ [x])
  | arrows params body => (free body).filter (· ∉ params)
  | unary _ e => free e
  | update e _ => free e
  | binary _ l r => free l ++ free r
  | member e _ _ => free e
  | index e i => free e ++ free i

def listFree : List Expr → List String
  | [] => []
  | e :: rest => free e ++ listFree rest

end

mutual

/-- In each conditional, what stands after the colon uses no parameter of an arrow whose body goes
on up to the colon. -/
def branchesApart : Expr → Bool
  | name _ => true
  | paren e => branchesApart e
  | call f args => branchesApart f && listBranchesApart args
  | array items => listBranchesApart items
  | cond test yes no =>
    branchesApart test && branchesApart yes && branchesApart no &&
      yes.trailing.all fun x => x ∉ no.free
  | arrow _ body => branchesApart body
  | arrows _ body => branchesApart body
  | unary _ e => branchesApart e
  | update e _ => branchesApart e
  | binary _ l r => branchesApart l && branchesApart r
  | member e _ _ => branchesApart e
  | index e i => branchesApart e && branchesApart i

def listBranchesApart : List Expr → Bool
  | [] => true
  | e :: rest => branchesApart e && listBranchesApart rest

end

end Expr

end Minify
