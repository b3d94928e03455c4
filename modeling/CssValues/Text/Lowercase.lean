import CssValues.Text.Basic
import CssValues.Text.Table.Casing

/-!
# Lower case

Full lower-casing: a capital I with a dot becomes two code points, and a capital sigma becomes a
final sigma at the end of a word.
-/

namespace CssValues.Text

def CaseRun.has (run : CaseRun) (n : Nat) : Bool :=
  run.first ≤ n && n ≤ run.last && (n - run.first) % run.step == 0

/-- Lower case of a character that does not depend on its neighbours. -/
def lowerChar (c : Char) : Text :=
  if c.toNat = 0x130 then ['i', Char.ofNat 0x307]
  else
    match lowerRuns.find? (·.has c.toNat) with
    | some run => [Char.ofNat ((c.toNat : Int) + run.shift).toNat]
    | none => [c]

/-- Whether the first character that counts for case is a cased letter. -/
def startsCased (t : Text) : Bool :=
  match t.dropWhile (fun c => caseIgnorable.has c.toNat) with
  | [] => false
  | c :: _ => cased.has c.toNat

/-- Lower case of a text that follows `before`, which is given in reverse. -/
def lowerAfter (before : Text) : Text → Text
  | [] => []
  | c :: rest =>
    let here :=
      if c = 'Σ' then
        if startsCased before && !startsCased rest then ['ς'] else ['σ']
      else lowerChar c
    here ++ lowerAfter (c :: before) rest

def lower (t : Text) : Text := lowerAfter [] t

end CssValues.Text
