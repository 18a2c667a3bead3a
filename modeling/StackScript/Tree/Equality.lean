import StackScript.Number.Basic
import StackScript.Tree.Basic

/-!
# Equality of trees

Two trees are equal when they are built alike from equal parts. Numbers are compared as numbers: the
two zeros are equal, and a tree that holds a NaN is not even equal to itself.
-/

namespace StackScript

/-- Equality of literals; numbers are compared as numbers. -/
def Literal.same : Literal → Literal → Bool
  | .number x => fun | .number y => Number.same x y | _ => false
  | .string s => fun | .string t => s == t | _ => false
  | .regExp p f => fun | .regExp q g => p == q && f == g | _ => false
  | .boolean a => fun | .boolean b => a == b | _ => false
  | .null => fun | .null => true | _ => false
  | .undefined => fun | .undefined => true | _ => false

/-- Equality of keys, which have to be of the same kind. -/
def PropertyKey.same : PropertyKey → PropertyKey → Bool
  | .name s => fun | .name t => s == t | _ => false
  | .string s => fun | .string t => s == t | _ => false
  | .number x => fun | .number y => Number.same x y | _ => false

mutual

/-- Equality of expressions, part by part. -/
def Expression.same : Expression → Expression → Bool
  | .literal a => fun | .literal b => a.same b | _ => false
  | .name s => fun | .name t => s == t | _ => false
  | .thisValue => fun | .thisValue => true | _ => false
  | .function n ps b => fun
    | .function m qs c => n == m && ps == qs && sameStatements b c
    | _ => false
  | .array xs => fun | .array ys => sameElements xs ys | _ => false
  | .object ps => fun | .object qs => sameProperties ps qs | _ => false
  | .member o n => fun | .member p m => o.same p && n == m | _ => false
  | .index o k => fun | .index p l => o.same p && k.same l | _ => false
  | .call f xs => fun | .call g ys => f.same g && sameExpressions xs ys | _ => false
  | .construct f xs => fun | .construct g ys => f.same g && sameExpressions xs ys | _ => false
  | .unary op x => fun | .unary oq y => op == oq && x.same y | _ => false
  | .update op x b => fun | .update oq y c => op == oq && x.same y && b == c | _ => false
  | .binary op x y => fun | .binary oq z w => op == oq && x.same z && y.same w | _ => false
  | .logical op x y => fun | .logical oq z w => op == oq && x.same z && y.same w | _ => false
  | .assignment op x y => fun | .assignment oq z w => op == oq && x.same z && y.same w | _ => false
  | .conditional t x y => fun | .conditional u z w => t.same u && x.same z && y.same w | _ => false
  | .sequence xs => fun | .sequence ys => sameExpressions xs ys | _ => false

/-- Equality of expressions that may be missing. -/
def sameExpression? : Option Expression → Option Expression → Bool
  | some x => fun | some y => x.same y | none => false
  | none => fun | some _ => false | none => true

/-- Equality of lists of expressions. -/
def sameExpressions : List Expression → List Expression → Bool
  | [] => List.isEmpty
  | x :: xs => fun | y :: ys => x.same y && sameExpressions xs ys | [] => false

/-- Equality of the elements of arrays; a hole equals a hole. -/
def sameElements : List (Option Expression) → List (Option Expression) → Bool
  | [] => List.isEmpty
  | some x :: xs => fun | some y :: ys => x.same y && sameElements xs ys | _ => false
  | none :: xs => fun | none :: ys => sameElements xs ys | _ => false

/-- Equality of lists of properties, in their order. -/
def sameProperties : List (Property Expression) → List (Property Expression) → Bool
  | [] => List.isEmpty
  | ⟨k, x⟩ :: ps => fun
    | ⟨l, y⟩ :: qs => k.same l && x.same y && sameProperties ps qs
    | [] => false

/-- Equality of declarations. -/
def sameDeclarators : List (Declarator Expression) → List (Declarator Expression) → Bool
  | [] => List.isEmpty
  | ⟨n, x⟩ :: ds => fun
    | ⟨m, y⟩ :: es => n == m && sameExpression? x y && sameDeclarators ds es
    | [] => false

/-- Equality of what stands first in the heads of loops. -/
def sameLoopHead : LoopHead Expression → LoopHead Expression → Bool
  | .declaration ds => fun | .declaration es => sameDeclarators ds es | _ => false
  | .expression x => fun | .expression y => x.same y | _ => false

/-- The same where it may be missing. -/
def sameLoopHead? : Option (LoopHead Expression) → Option (LoopHead Expression) → Bool
  | some h => fun | some k => sameLoopHead h k | none => false
  | none => fun | some _ => false | none => true

/-- Equality of statements, part by part. -/
def Statement.same : Statement → Statement → Bool
  | .block b => fun | .block c => sameStatements b c | _ => false
  | .expression x => fun | .expression y => x.same y | _ => false
  | .declaration ds => fun | .declaration es => sameDeclarators ds es | _ => false
  | .ifElse t a b => fun | .ifElse u c d => t.same u && a.same c && sameStatement? b d | _ => false
  | .whileLoop t b => fun | .whileLoop u c => t.same u && b.same c | _ => false
  | .doWhile b t => fun | .doWhile c u => b.same c && t.same u | _ => false
  | .forLoop i t u b => fun
    | .forLoop j v w c =>
      sameLoopHead? i j && sameExpression? t v && sameExpression? u w && b.same c
    | _ => false
  | .empty => fun | .empty => true | _ => false
  | .forIn h o b => fun | .forIn k p c => sameLoopHead h k && o.same p && b.same c | _ => false
  | .ret x => fun | .ret y => sameExpression? x y | _ => false
  | .breakTo l => fun | .breakTo m => l == m | _ => false
  | .continueTo l => fun | .continueTo m => l == m | _ => false
  | .throw x => fun | .throw y => x.same y | _ => false
  | .tryCatch b h f => fun
    | .tryCatch c k g => sameStatements b c && sameHandler? h k && sameBlock? f g
    | _ => false
  | .switch x cs => fun | .switch y ds => x.same y && sameClauses cs ds | _ => false
  | .withObject o b => fun | .withObject p c => o.same p && b.same c | _ => false
  | .labeled l b => fun | .labeled m c => l == m && b.same c | _ => false
  | .function n ps b => fun
    | .function m qs c => n == m && ps == qs && sameStatements b c
    | _ => false

/-- Equality of statements that may be missing. -/
def sameStatement? : Option Statement → Option Statement → Bool
  | some s => fun | some t => s.same t | none => false
  | none => fun | some _ => false | none => true

/-- Equality of lists of statements. -/
def sameStatements : List Statement → List Statement → Bool
  | [] => List.isEmpty
  | s :: ss => fun | t :: ts => s.same t && sameStatements ss ts | [] => false

/-- Equality of handlers that may be missing. -/
def sameHandler? : Option (Handler Statement) → Option (Handler Statement) → Bool
  | some ⟨p, b⟩ => fun | some ⟨q, c⟩ => p == q && sameStatements b c | none => false
  | none => fun | some _ => false | none => true

/-- Equality of blocks that may be missing. -/
def sameBlock? : Option (List Statement) → Option (List Statement) → Bool
  | some b => fun | some c => sameStatements b c | none => false
  | none => fun | some _ => false | none => true

/-- Equality of the cases of switches. -/
def sameClauses : List (Clause Expression Statement) → List (Clause Expression Statement) → Bool
  | [] => List.isEmpty
  | ⟨t, b⟩ :: cs => fun
    | ⟨u, c⟩ :: ds => sameExpression? t u && sameStatements b c && sameClauses cs ds
    | [] => false

end

/-- Equality of programs. -/
def Program.same (p q : Program) : Bool :=
  sameStatements p.body q.body

/-- Equality of function literals. -/
def Function.same (f g : Function) : Bool :=
  f.name == g.name && f.params == g.params && sameStatements f.body g.body

end StackScript
