import ControlPlane.Proofs.Text.Decimal
import ControlPlane.Proofs.Text.Split
import ControlPlane.Proofs.Toml.Quoted
import ControlPlane.Toml.Document

/-! # TOML documents are read line by line

Of each kind of line that a writer uses it is said what it is for the reader: a step from the tables
so far to those with the line. A document of such lines is their steps, one after another.
-/
namespace ControlPlane.Toml

/-! ## Numbers -/

namespace Scalar
variable {cs : List Char}

theorem whole?_render (n : Nat) : whole? (Decimal.render n) = some (Decimal.render n) := by
  have hunder : '_' ∉ Decimal.render n :=
    fun h => absurd (Decimal.isDigit_of_mem_render h) (by decide)
  have hdigits : (Decimal.render n).all Decimal.isDigit = true :=
    List.all_eq_true.2 fun c hc => Decimal.isDigit_of_mem_render hc
  have hfilter : (Decimal.render n).filter (· != '_') = Decimal.render n :=
    List.filter_eq_self.2 fun c hc => by
      rw [bne_iff_ne]
      rintro rfl
      exact hunder hc
  rw [whole?, if_neg (Decimal.no_leading_zero n), grouped?, Text.splitOn_of_not_mem hunder,
    hfilter, if_pos]
  simpa [Decimal.render_ne_nil] using hdigits

theorem ofRadix_eq_value (h : ∀ c ∈ cs, Decimal.isDigit c = true) :
    ofRadix 10 cs = Decimal.value cs := by
  rw [ofRadix, Decimal.value, Decimal.ofDigits, List.foldl_map]
  refine List.foldl_ext _ _ _ fun n c hc => ?_
  have hdigit : '0' ≤ c ∧ c ≤ '9' := by simpa [Decimal.isDigit] using h c hc
  rw [digitValue, if_pos hdigit.2]

theorem integer?_render {n : Nat} (h : (n : Int) ≤ Int64.maxValue.toInt) :
    integer? (Decimal.render n) = some (n : Int) := by
  have hdigit (c : Char) (hc : c ∈ Decimal.render n) : Decimal.isDigit c = true :=
    Decimal.isDigit_of_mem_render hc
  have hother {c d : Char} {cs : List Char} (he : Decimal.render n = c :: d :: cs) :
      Decimal.isDigit d = true :=
    hdigit d (by simp [he])
  have hsign {c : Char} {cs : List Char} (he : Decimal.render n = c :: cs) :
      Decimal.isDigit c = true :=
    hdigit c (by simp [he])
  have hleast : Int64.minValue.toInt ≤ (n : Int) := Int.le_trans (by decide) (Int.natCast_nonneg n)
  rw [integer?]
  · rw [whole?_render]
    simp only [Option.bind_eq_bind, Option.bind_some]
    rw [ofRadix_eq_value hdigit, Decimal.value_render, inRange, if_pos ⟨hleast, h⟩]
  · exact fun cs he => absurd (hother he) (by decide)
  · exact fun cs he => absurd (hother he) (by decide)
  · exact fun cs he => absurd (hother he) (by decide)
  · exact fun cs he => absurd (hsign he) (by decide)
  · exact fun cs he => absurd (hsign he) (by decide)

theorem ofToken?_render {n : Nat} (h : (n : Int) ≤ Int64.maxValue.toInt) :
    ofToken? (Decimal.render n) = some (.integer n) := by
  have hword {c : Char} {cs : List Char} (hc : Decimal.isDigit c = false) :
      Decimal.render n ≠ c :: cs := by
    intro he
    have hdigit : Decimal.isDigit c = true :=
      Decimal.isDigit_of_mem_render (he ▸ List.mem_cons_self)
    rw [hc] at hdigit
    cases hdigit
  rw [ofToken?, if_neg (hword rfl), if_neg (hword rfl), integer?_render h]

theorem token_of_all {rest : List Char} (h : ∀ c ∈ cs, isTokenChar c = true) :
    token (cs ++ '\n' :: rest) = (cs, '\n' :: rest) := by
  have hfront : (cs ++ '\n' :: rest).takeWhile isTokenChar = cs := by
    rw [List.takeWhile_append_of_pos h]
    exact List.append_nil cs
  have hback : (cs ++ '\n' :: rest).dropWhile isTokenChar = '\n' :: rest := by
    rw [List.dropWhile_append_of_pos h]
    rfl
  rw [token, hfront, hback]
  rfl

end Scalar

/-! ## Keys -/

namespace Reader
variable {cs rest : List Char} {key : String} {fuel : Nat}

theorem bind_of_some {α β : Type} {read : Reader α} {k : α → Reader β} {a : α}
    (h : read cs = some (a, rest)) :
    (read >>= k) cs = k a rest := by
  change (read cs >>= fun (a, rest) => k a rest) = k a rest
  rw [h]
  rfl

/-- A key that needs no quotes. -/
def IsBare (key : String) : Prop := key.toList ≠ [] ∧ ∀ c ∈ key.toList, isBareKey c = true

instance (key : String) : Decidable (IsBare key) :=
  decidable_of_iff (key.toList.isEmpty = false ∧ key.toList.all isBareKey = true) (by simp [IsBare])

theorem IsBare.exists_cons (h : IsBare key) :
    ∃ c cs, key.toList = c :: cs ∧ isBareKey c = true := by
  obtain ⟨c, cs, hkey⟩ := List.exists_cons_of_ne_nil h.1
  exact ⟨c, cs, hkey, h.2 c (hkey ▸ List.mem_cons_self)⟩

theorem isSpace_of_isBareKey {c : Char} (h : isBareKey c = true) : isSpace c = false := by
  refine Bool.eq_false_iff.2 fun hspace => ?_
  obtain rfl | rfl : c = ' ' ∨ c = '\t' := by simpa [isSpace] using hspace
  · cases h
  · cases h

theorem skipSpace_eq (h : ∀ c ∈ cs.head?, isSpace c = false) : skipSpace cs = some ((), cs) := by
  cases cs with
  | nil => rfl
  | cons c cs => rw [skipSpace, List.dropWhile_cons, h c rfl, if_neg Bool.false_ne_true]

theorem optionally_eq_false {c : Char} (h : cs.head? ≠ some c) :
    optionally c cs = some (false, cs) := by
  cases cs with
  | nil => rfl
  | cons d cs =>
    have hd : d ≠ c := fun he => h (he ▸ rfl)
    simp [optionally, hd]

theorem simpleKey_bare (hkey : IsBare key) (hstop : ∀ c ∈ rest.head?, isBareKey c = false) :
    simpleKey (key.toList ++ rest) = some (key, rest) := by
  have hfront : (key.toList ++ rest).takeWhile isBareKey = key.toList := by
    rw [List.takeWhile_append_of_pos hkey.2]
    cases rest with
    | nil => simp
    | cons c rest => simp [hstop c rfl]
  have hback : (key.toList ++ rest).dropWhile isBareKey = rest := by
    rw [List.dropWhile_append_of_pos hkey.2]
    cases rest with
    | nil => simp
    | cons c rest => simp [hstop c rfl]
  have hquote {c : Char} {more : List Char} (he : key.toList ++ rest = c :: more) :
      isBareKey c = true := by
    obtain ⟨d, ds, hcons, hd⟩ := hkey.exists_cons
    rw [hcons] at he
    exact (List.cons.inj he).1 ▸ hd
  rw [simpleKey]
  · rw [hfront, hback, if_neg (by simpa using hkey.1), String.ofList_toList]
  · exact fun _ he => absurd (hquote he) (by decide)
  · exact fun _ he => absurd (hquote he) (by decide)

theorem dottedKey_bare (hkey : IsBare key) (hstop : ∀ c ∈ rest.head?, isBareKey c = false)
    (hdot : (rest.dropWhile isSpace).head? ≠ some '.') :
    dottedKey (key.toList ++ rest) = some (([], key), rest.dropWhile isSpace) := by
  have hspace : ∀ c ∈ (key.toList ++ rest).head?, isSpace c = false := by
    obtain ⟨c, cs, hcons, hc⟩ := hkey.exists_cons
    rw [hcons]
    rintro _ ⟨⟩
    exact isSpace_of_isBareKey hc
  have hskip : skipSpace rest = some ((), rest.dropWhile isSpace) := rfl
  change keysFrom (78 + 1) [] (key.toList ++ rest) = _
  rw [keysFrom, bind_of_some (skipSpace_eq hspace), bind_of_some (simpleKey_bare hkey hstop),
    bind_of_some hskip, bind_of_some (optionally_eq_false hdot)]
  rfl

/-! ## Values of one line -/

/-- What a writer puts after a key. -/
inductive Written
  | string (s : String)
  | natural (n : Nat)
  | emptyArray

namespace Written

def text : Written → List Char
  | string s => Quoted.write s.toList
  | natural n => Decimal.render n
  | emptyArray => ['[', ']']

def value : Written → Value
  | string s => .string s
  | natural n => .integer n
  | emptyArray => .array []

/-- Numbers are within the integers of the format. -/
def Fits : Written → Prop
  | natural n => (n : Int) ≤ Int64.maxValue.toInt
  | string _ | emptyArray => True

end Written

theorem value_string (fuel depth : Nat) (s : String) :
    value fuel (depth + 1) (Quoted.write s.toList ++ '\n' :: rest) =
      some (.string s, '\n' :: rest) := by
  have hread : string (Quoted.write s.toList ++ '\n' :: rest) = some (.string s, '\n' :: rest) := by
    rw [string, Quoted.read_write (by simp) (by simp)]
    exact congrArg (fun s => some (Value.string s, '\n' :: rest)) String.ofList_toList
  rw [value, bind_of_some (a := (Quoted.write s.toList ++ '\n' :: rest).head?) rfl]
  obtain hhead | hhead := Quoted.head?_write s.toList ('\n' :: rest)
  · rw [hhead]
    exact hread
  · rw [hhead]
    exact hread

theorem value_natural (fuel depth : Nat) {n : Nat} (h : (n : Int) ≤ Int64.maxValue.toInt) :
    value fuel (depth + 1) (Decimal.render n ++ '\n' :: rest) =
      some (.integer n, '\n' :: rest) := by
  have hdigit (c : Char) (hc : c ∈ Decimal.render n) : Decimal.isDigit c = true :=
    Decimal.isDigit_of_mem_render hc
  have hread : scalar (Decimal.render n ++ '\n' :: rest) = some (.integer n, '\n' :: rest) := by
    have htoken :
        Scalar.token (Decimal.render n ++ '\n' :: rest) = (Decimal.render n, '\n' :: rest) :=
      Scalar.token_of_all fun c hc => by simp [Scalar.isTokenChar, hdigit c hc]
    rw [scalar, htoken]
    dsimp only
    rw [Scalar.ofToken?_render h]
    rfl
  obtain ⟨c, cs, hcons⟩ := List.exists_cons_of_ne_nil (Decimal.render_ne_nil n)
  have hc := hdigit c (hcons ▸ List.mem_cons_self)
  rw [hcons] at hread ⊢
  have hother {d : Char} (hd : Decimal.isDigit d = false) : c ≠ d := by
    rintro rfl
    rw [hc] at hd
    cases hd
  rw [value, bind_of_some (a := some c) rfl]
  rw [← hread]
  refine congrFun ?_ _
  split
  · next hd => exact absurd (Option.some.inj hd) (hother rfl)
  · next hd => exact absurd (Option.some.inj hd) (hother rfl)
  · next hd => exact absurd (Option.some.inj hd) (hother rfl)
  · next hd => exact absurd (Option.some.inj hd) (hother rfl)
  · rfl

theorem value_emptyArray (fuel depth : Nat) :
    value (fuel + 2) (depth + 1) ('[' :: ']' :: rest) = some (.array [], rest) := by
  rw [value, bind_of_some (a := some '[') rfl]
  rfl

theorem value_text {w : Written} (h : w.Fits) (hfuel : 2 ≤ fuel) (depth : Nat) :
    value fuel (depth + 1) (w.text ++ '\n' :: rest) = some (w.value, '\n' :: rest) := by
  cases w with
  | string s => exact value_string fuel depth s
  | natural n => exact value_natural fuel depth h
  | emptyArray =>
    obtain ⟨fuel, rfl⟩ : ∃ k, fuel = k + 2 := ⟨fuel - 2, by omega⟩
    exact value_emptyArray fuel depth

theorem isSpace_head?_text (w : Written) :
    ∀ c ∈ (w.text ++ '\n' :: rest).head?, isSpace c = false := by
  rintro c hc
  rw [Option.mem_def] at hc
  cases w with
  | string s =>
    obtain hhead | hhead := Quoted.head?_write s.toList ('\n' :: rest)
    · cases hc.symm.trans hhead
      rfl
    · cases hc.symm.trans hhead
      rfl
  | natural n =>
    obtain ⟨d, ds, hcons⟩ := List.exists_cons_of_ne_nil (Decimal.render_ne_nil n)
    have hd : Decimal.isDigit d = true := Decimal.isDigit_of_mem_render (hcons ▸ List.mem_cons_self)
    rw [Written.text, hcons] at hc
    cases hc
    exact isSpace_of_isBareKey (by simp [isBareKey, hd])
  | emptyArray =>
    cases hc
    rfl

theorem keyValue_text {w : Written} (hkey : IsBare key) (h : w.Fits) (hfuel : 2 ≤ fuel)
    (depth : Nat) :
    keyValue (value fuel (depth + 1))
      (key.toList ++ ' ' :: '=' :: ' ' :: (w.text ++ '\n' :: rest)) =
      some ((([], key), w.value), '\n' :: rest) := by
  have hspace : (' ' :: '=' :: ' ' :: (w.text ++ '\n' :: rest)).dropWhile isSpace =
      '=' :: ' ' :: (w.text ++ '\n' :: rest) := rfl
  have hdotted : dottedKey (key.toList ++ ' ' :: '=' :: ' ' :: (w.text ++ '\n' :: rest)) =
      some (([], key), '=' :: ' ' :: (w.text ++ '\n' :: rest)) :=
    dottedKey_bare hkey (by simp [isBareKey, Decimal.isDigit]) (by simp [hspace])
  have hmark : mark '=' ('=' :: ' ' :: (w.text ++ '\n' :: rest)) =
      some ((), ' ' :: (w.text ++ '\n' :: rest)) := rfl
  have hskip : skipSpace (' ' :: (w.text ++ '\n' :: rest)) = some ((), w.text ++ '\n' :: rest) :=
    skipSpace_eq (isSpace_head?_text w)
  rw [keyValue, bind_of_some hdotted, bind_of_some hmark, bind_of_some hskip,
    bind_of_some (value_text h hfuel depth)]
  rfl

/-! ## Lines -/

/-- The lines that a writer uses. -/
inductive Line
  | blank
  | table (name : String)
  | element (name : String)
  | pair (key : String) (w : Written)

namespace Line

def text : Line → List Char
  | blank => ['\n']
  | table name => '[' :: (name.toList ++ [']', '\n'])
  | element name => '[' :: '[' :: (name.toList ++ [']', ']', '\n'])
  | pair key w => key.toList ++ ' ' :: '=' :: ' ' :: (w.text ++ ['\n'])

/-- What a line adds to the tables so far. -/
def apply (p : Progress) : Line → Option Progress
  | blank => some p
  | table name => (p.entries.openTable [] name).map fun entries => ⟨[name], entries⟩
  | element name => (p.entries.openElement [] name).map fun entries => ⟨[name], entries⟩
  | pair key w => (p.entries.addBelow p.header [] key w.value).map fun entries =>
    ⟨p.header, entries⟩

def Fits : Line → Prop
  | blank => True
  | table name | element name => IsBare name
  | pair key w => IsBare key ∧ w.Fits

end Line

theorem dottedKey_name {name : String} (hname : IsBare name) :
    dottedKey (name.toList ++ ']' :: rest) = some (([], name), ']' :: rest) :=
  dottedKey_bare hname (by simp [isBareKey, Decimal.isDigit]) (by simp [isSpace])

theorem headerLine_table {name : String} (hname : IsBare name) (p : Progress) :
    headerLine p ((Line.table name).text ++ rest) = ((Line.table name).apply p).map (·, rest) := by
  have htext : (Line.table name).text ++ rest = '[' :: (name.toList ++ ']' :: '\n' :: rest) := by
    simp [Line.text]
  have hsingle : optionally '[' (name.toList ++ ']' :: '\n' :: rest) =
      some (false, name.toList ++ ']' :: '\n' :: rest) := by
    obtain ⟨c, cs, hcons, hc⟩ := hname.exists_cons
    refine optionally_eq_false fun hhead => ?_
    rw [hcons] at hhead
    cases hhead
    cases hc
  rw [htext, headerLine, bind_of_some (a := ()) rfl, bind_of_some hsingle,
    bind_of_some (dottedKey_name hname)]
  change progress [name] (p.entries.openTable [] name) rest = _
  rw [progress, Line.apply, Option.map_map]
  rfl

theorem headerLine_element {name : String} (hname : IsBare name) (p : Progress) :
    headerLine p ((Line.element name).text ++ rest) =
      ((Line.element name).apply p).map (·, rest) := by
  have htext : (Line.element name).text ++ rest =
      '[' :: '[' :: (name.toList ++ ']' :: ']' :: '\n' :: rest) := by
    simp [Line.text]
  rw [htext, headerLine, bind_of_some (a := ()) rfl, bind_of_some (a := true) rfl,
    bind_of_some (dottedKey_name hname)]
  change progress [name] (p.entries.openElement [] name) rest = _
  rw [progress, Line.apply, Option.map_map]
  rfl

theorem valueLine_text {w : Written} (hkey : IsBare key) (h : w.Fits) (hfuel : 2 ≤ fuel)
    (p : Progress) :
    valueLine fuel p ((Line.pair key w).text ++ rest) =
      ((Line.pair key w).apply p).map (·, rest) := by
  have htext : (Line.pair key w).text ++ rest =
      key.toList ++ ' ' :: '=' :: ' ' :: (w.text ++ '\n' :: rest) := by
    simp [Line.text]
  have hpair :
      keyValue (value fuel limit) (key.toList ++ ' ' :: '=' :: ' ' :: (w.text ++ '\n' :: rest)) =
      some ((([], key), w.value), '\n' :: rest) := keyValue_text hkey h hfuel 79
  rw [htext, valueLine, bind_of_some hpair]
  change progress p.header (p.entries.addBelow p.header [] key w.value) rest = _
  rw [progress, Line.apply, Option.map_map]
  rfl

theorem linesFrom_text {l : Line} (h : l.Fits) (hfuel : 2 ≤ fuel) (turns : Nat) (p : Progress) :
    linesFrom fuel (turns + 1) p (l.text ++ rest) = (l.apply p).bind fun p =>
      linesFrom fuel turns p rest := by
  have hbind {read : Reader Progress} (hread : read (l.text ++ rest) = (l.apply p).map (·, rest)) :
      (read >>= linesFrom fuel turns) (l.text ++ rest) = (l.apply p).bind fun p =>
        linesFrom fuel turns p rest := by
    change (read (l.text ++ rest)).bind (fun (p, rest) => linesFrom fuel turns p rest) = _
    rw [hread, Option.bind_map]
    rfl
  rw [linesFrom]
  cases l with
  | blank => rfl
  | table name => exact hbind (headerLine_table h p)
  | element name => exact hbind (headerLine_element h p)
  | pair key w =>
    obtain ⟨hkey, hw⟩ := h
    obtain ⟨c, cs, hcons, hc⟩ := hkey.exists_cons
    have hhead : ((Line.pair key w).text ++ rest).head? = some c := by simp [Line.text, hcons]
    have hspace : ∀ d ∈ ((Line.pair key w).text ++ rest).head?, isSpace d = false := by
      rw [hhead]
      rintro _ ⟨⟩
      exact isSpace_of_isBareKey hc
    have hother {d : Char} (hd : isBareKey d = false) : some c ≠ some d := by
      rintro ⟨⟩
      rw [hc] at hd
      cases hd
    rw [bind_of_some (skipSpace_eq hspace),
      bind_of_some (a := some c) (congrArg (fun d => some (d, _)) hhead),
      ← hbind (valueLine_text hkey hw hfuel p)]
    refine congrFun ?_ _
    split
    · next hd => exact absurd hd nofun
    · next hd => exact absurd hd (hother rfl)
    · next hd => exact absurd hd (hother rfl)
    · next hd => exact absurd hd (hother rfl)
    · next hd => exact absurd hd (hother rfl)
    · rfl

theorem linesFrom_flatMap {ls : List Line} (h : ∀ l ∈ ls, l.Fits) (hfuel : 2 ≤ fuel) {turns : Nat}
    (hturns : ls.length < turns) (p : Progress) :
    linesFrom fuel turns p (ls.flatMap Line.text) = (ls.foldlM Line.apply p).map fun p =>
      (p.entries, []) := by
  obtain ⟨turns, rfl⟩ : ∃ k, turns = k + 1 := ⟨turns - 1, by omega⟩
  induction ls generalizing turns p with
  | nil => rfl
  | cons l ls ih =>
    obtain ⟨hl, hls⟩ := List.forall_mem_cons.1 h
    rw [List.length_cons] at hturns
    obtain ⟨turns, rfl⟩ : ∃ k, turns = k + 1 := ⟨turns - 1, by omega⟩
    rw [List.flatMap_cons, linesFrom_text hl hfuel, List.foldlM_cons]
    cases l.apply p with
    | none => rfl
    | some p => exact ih hls p turns (by omega)

/-- No line is empty, and none begins with a byte order mark. -/
theorem Line.exists_text {l : Line} (h : l.Fits) : ∃ c cs, l.text = c :: cs ∧ c ≠ '\uFEFF' := by
  cases l with
  | blank => exact ⟨_, _, rfl, by decide⟩
  | table name => exact ⟨_, _, rfl, by decide⟩
  | element name => exact ⟨_, _, rfl, by decide⟩
  | pair key w =>
    obtain ⟨c, cs, hcons, hc⟩ := h.1.exists_cons
    refine ⟨c, _, by rw [Line.text, hcons, List.cons_append], ?_⟩
    rintro rfl
    cases hc

theorem length_le_flatMap_text {ls : List Line} (h : ∀ l ∈ ls, l.Fits) :
    ls.length ≤ (ls.flatMap Line.text).length := by
  induction ls with
  | nil => exact Nat.le_refl 0
  | cons l ls ih =>
    obtain ⟨hl, hls⟩ := List.forall_mem_cons.1 h
    obtain ⟨c, cs, htext, -⟩ := Line.exists_text hl
    have hle := ih hls
    rw [List.flatMap_cons, htext, List.length_append, List.length_cons, List.length_cons]
    omega

end Reader
open Reader

theorem document?_flatMap {ls : List Line} (h : ∀ l ∈ ls, l.Fits) :
    document? (ls.flatMap Line.text) = (ls.foldlM Line.apply {}).map fun p =>
      Node.members p.entries := by
  have hlength := length_le_flatMap_text h
  have hmark : dropByteOrderMark (ls.flatMap Line.text) = ls.flatMap Line.text := by
    cases ls with
    | nil => rfl
    | cons l ls =>
      obtain ⟨c, cs, htext, hc⟩ := Line.exists_text (h l List.mem_cons_self)
      rw [List.flatMap_cons, htext, List.cons_append, dropByteOrderMark]
      exact fun rest he => hc (List.cons.inj he).1
  rw [document?, hmark, linesFrom_flatMap h (by omega) (by omega), Option.map_map]
  rfl

end ControlPlane.Toml
