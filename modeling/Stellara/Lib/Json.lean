import Mathlib.Data.List.Basic
import Mathlib.Logic.Function.Basic

/-!
# JSON

Values, their texts as `JSON.stringify` writes them, and what is where in a value.

    a.text f = b.text f → a = b                                 (Json.text_injective)

Numbers are left open: a `NumberFormat` says how they are written.
-/

variable {Number : Type}

/-- What the text of a number is made of. -/
def isNumberChar (c : Char) : Bool :=
  c.isDigit || c = '-' || c = '+' || c = '.' || c = 'e'

/-- How numbers are written. -/
structure NumberFormat (Number : Type) where
  toChars : Number → List Char
  injective : Function.Injective toChars
  nonempty : ∀ n, toChars n ≠ []
  chars : ∀ n, ∀ c ∈ toChars n, isNumberChar c = true

inductive Json (Number : Type)
  | null
  | bool (b : Bool)
  | number (n : Number)
  | string (s : String)
  | array (items : List (Json Number))
  | object (members : List (String × Json Number))

/-! ## Strings -/

def quotationMark : Char := Char.ofNat 34

def reverseSolidus : Char := Char.ofNat 92

/-- The characters with an escape of two characters. -/
def shortEscape : Nat → Option Char
  | 8 => some 'b'
  | 9 => some 't'
  | 10 => some 'n'
  | 12 => some 'f'
  | 13 => some 'r'
  | 34 => some quotationMark
  | 92 => some reverseSolidus
  | _ => none

def escapeChar (c : Char) : List Char :=
  match shortEscape c.toNat with
  | some e => [reverseSolidus, e]
  | none =>
    if c.toNat < 32 then
      [reverseSolidus, 'u', '0', '0', Nat.digitChar (c.toNat / 16), Nat.digitChar (c.toNat % 16)]
    else [c]

def quote (s : String) : List Char :=
  quotationMark :: (s.toList.flatMap escapeChar ++ [quotationMark])

theorem shortEscape_inj {m n : Nat} {e : Char} (hm : shortEscape m = some e)
    (hn : shortEscape n = some e) : m = n := by
  unfold shortEscape at hm hn
  split at hm <;> cases hm <;> split at hn <;>
    first | rfl | cases hn

theorem shortEscape_ne_u {n : Nat} : shortEscape n ≠ some 'u' := by
  unfold shortEscape
  split <;> decide

theorem hexDigit_inj : ∀ m < 16, ∀ n < 16, Nat.digitChar m = Nat.digitChar n → m = n := by
  decide

/-- An escape shows where it ends. -/
theorem escapeChar_inj {c d : Char} {u v : List Char} (h : escapeChar c ++ u = escapeChar d ++ v) :
    c = d ∧ u = v := by
  have hplain : ∀ x : Char, shortEscape x.toNat = none → x ≠ reverseSolidus := by
    rintro x hx rfl
    cases hx
  unfold escapeChar at h
  cases hc : shortEscape c.toNat with
  | some e =>
    cases hd : shortEscape d.toNat with
    | some e' =>
      rw [hc, hd] at h
      obtain ⟨heq, rfl⟩ := List.cons.inj (List.cons.inj h).2
      subst heq
      exact ⟨Char.toNat_inj.mp (shortEscape_inj hc hd), rfl⟩
    | none =>
      rw [hc, hd] at h
      dsimp only at h
      split at h
      · have he : e = 'u' := (List.cons.inj (List.cons.inj h).2).1
        exact absurd (he ▸ hc) shortEscape_ne_u
      · exact absurd (List.cons.inj h).1.symm (hplain d hd)
  | none =>
    cases hd : shortEscape d.toNat with
    | some e' =>
      rw [hc, hd] at h
      dsimp only at h
      split at h
      · have he : 'u' = e' := (List.cons.inj (List.cons.inj h).2).1
        exact absurd (he ▸ hd) shortEscape_ne_u
      · exact absurd (List.cons.inj h).1 (hplain c hc)
    | none =>
      rw [hc, hd] at h
      dsimp only at h
      split at h <;> split at h
      · next hlt hlt' =>
        obtain ⟨hhigh, htail⟩ := List.cons.inj (List.cons.inj (List.cons.inj (List.cons.inj
          (List.cons.inj h).2).2).2).2
        obtain ⟨hlow, rfl⟩ := List.cons.inj htail
        have h1 := hexDigit_inj _ (by omega) _ (by omega) hhigh
        have h2 := hexDigit_inj _ (by omega) _ (by omega) hlow
        exact ⟨Char.toNat_inj.mp (by omega), rfl⟩
      · exact absurd (List.cons.inj h).1.symm (hplain d hd)
      · exact absurd (List.cons.inj h).1 (hplain c hc)
      · obtain ⟨rfl, rfl⟩ := List.cons.inj h
        exact ⟨rfl, rfl⟩

/-- The end of a string is no escape. -/
theorem escapeChar_ne_quote (c : Char) (u v : List Char) :
    escapeChar c ++ u ≠ quotationMark :: v := by
  intro h
  unfold escapeChar at h
  cases hc : shortEscape c.toNat with
  | some e =>
    rw [hc] at h
    exact absurd (List.cons.inj h).1 (by decide)
  | none =>
    rw [hc] at h
    dsimp only at h
    split at h
    · exact absurd (List.cons.inj h).1 (by decide)
    · have hcq : c = quotationMark := (List.cons.inj h).1
      rw [hcq] at hc
      cases hc

theorem escapes_inj {xs ys u v : List Char}
    (h : xs.flatMap escapeChar ++ quotationMark :: u = ys.flatMap escapeChar ++ quotationMark :: v) :
    xs = ys ∧ u = v := by
  induction xs generalizing ys with
  | nil =>
    cases ys with
    | nil => exact ⟨rfl, (List.cons.inj h).2⟩
    | cons d ys =>
      rw [List.flatMap_cons, List.append_assoc] at h
      exact absurd h.symm (escapeChar_ne_quote d _ _)
  | cons c xs ih =>
    cases ys with
    | nil =>
      rw [List.flatMap_cons, List.append_assoc] at h
      exact absurd h (escapeChar_ne_quote c _ _)
    | cons d ys =>
      rw [List.flatMap_cons, List.flatMap_cons, List.append_assoc, List.append_assoc] at h
      obtain ⟨rfl, hrest⟩ := escapeChar_inj h
      obtain ⟨rfl, rfl⟩ := ih hrest
      exact ⟨rfl, rfl⟩

theorem quote_inj {s s' : String} {u v : List Char} (h : quote s ++ u = quote s' ++ v) :
    s = s' ∧ u = v := by
  unfold quote at h
  rw [List.cons_append, List.cons_append, List.append_assoc, List.append_assoc] at h
  obtain ⟨hs, huv⟩ := escapes_inj (List.cons.inj h).2
  exact ⟨String.toList_inj.mp hs, huv⟩

/-! ## Values -/

namespace Json

mutual

/-- `JSON.stringify` -/
def text (f : NumberFormat Number) : Json Number → List Char
  | null => ['n', 'u', 'l', 'l']
  | bool b => if b then ['t', 'r', 'u', 'e'] else ['f', 'a', 'l', 's', 'e']
  | number n => f.toChars n
  | string s => quote s
  | array [] => ['[', ']']
  | array (item :: rest) => '[' :: text f item ++ itemsText f rest
  | object [] => ['\x7b', '\x7d']
  | object ((key, value) :: rest) =>
    '\x7b' :: quote key ++ ':' :: text f value ++ membersText f rest

def itemsText (f : NumberFormat Number) : List (Json Number) → List Char
  | [] => [']']
  | item :: rest => ',' :: text f item ++ itemsText f rest

def membersText (f : NumberFormat Number) : List (String × Json Number) → List Char
  | [] => ['\x7d']
  | (key, value) :: rest => ',' :: quote key ++ ':' :: text f value ++ membersText f rest

end

section Equations

variable (f : NumberFormat Number) (u : List Char)

theorem text_array_cons (x : Json Number) (xs : List (Json Number)) :
    text f (array (x :: xs)) ++ u = '[' :: (text f x ++ (itemsText f xs ++ u)) := by
  rw [text]
  simp only [List.append_assoc, List.cons_append]

theorem itemsText_cons (x : Json Number) (xs : List (Json Number)) :
    itemsText f (x :: xs) ++ u = ',' :: (text f x ++ (itemsText f xs ++ u)) := by
  rw [itemsText]
  simp only [List.append_assoc, List.cons_append]

theorem text_object_cons (key : String) (x : Json Number) (xs : List (String × Json Number)) :
    text f (object ((key, x) :: xs)) ++ u =
      '\x7b' :: (quote key ++ ':' :: (text f x ++ (membersText f xs ++ u))) := by
  rw [text]
  simp only [List.append_assoc, List.cons_append]

theorem membersText_cons (key : String) (x : Json Number) (xs : List (String × Json Number)) :
    membersText f ((key, x) :: xs) ++ u =
      ',' :: (quote key ++ ':' :: (text f x ++ (membersText f xs ++ u))) := by
  rw [membersText]
  simp only [List.append_assoc, List.cons_append]

end Equations

/-- What may follow the text of a number. -/
def Stops (u : List Char) : Prop := ∀ c ∈ u.head?, isNumberChar c = false

/-- The kind of a value is seen at the first character of its text. -/
def kindOf (c : Char) : Nat :=
  if c = 'n' then 0 else if c = 't' then 1 else if c = 'f' then 2
  else if c = quotationMark then 3 else if c = '[' then 4 else if c = '\x7b' then 5
  else if isNumberChar c then 6 else 7

def kind : Json Number → Nat
  | null => 0
  | bool b => if b then 1 else 2
  | string _ => 3
  | array _ => 4
  | object _ => 5
  | number _ => 6

theorem kindOf_number {c : Char} (h : isNumberChar c = true) : kindOf c = 6 := by
  have hne : ∀ d : Char, isNumberChar d = false → c ≠ d := by
    rintro d hd rfl
    rw [h] at hd
    cases hd
  unfold kindOf
  rw [if_neg (hne _ (by decide)), if_neg (hne _ (by decide)), if_neg (hne _ (by decide)),
    if_neg (hne _ (by decide)), if_neg (hne _ (by decide)), if_neg (hne _ (by decide)), if_pos h]

theorem text_head (f : NumberFormat Number) (a : Json Number) :
    ∃ c rest, a.text f = c :: rest ∧ kindOf c = a.kind := by
  cases a with
  | null => exact ⟨_, _, rfl, rfl⟩
  | bool b => cases b <;> exact ⟨_, _, rfl, rfl⟩
  | number n =>
    obtain ⟨c, rest, hn⟩ := List.exists_cons_of_ne_nil (f.nonempty n)
    exact ⟨c, rest, hn, kindOf_number (f.chars n c (hn ▸ List.mem_cons_self))⟩
  | string s => exact ⟨_, _, rfl, rfl⟩
  | array items => cases items <;> exact ⟨_, _, rfl, rfl⟩
  | object members => cases members <;> exact ⟨_, _, rfl, rfl⟩

/-- A text does not start with a bracket that closes one. -/
theorem text_ne_closing (f : NumberFormat Number) (a : Json Number) {c : Char} {u v : List Char}
    (hc : kindOf c = 7) : a.text f ++ u ≠ c :: v := by
  intro h
  obtain ⟨d, rest, ha, hd⟩ := text_head f a
  rw [ha] at h
  rw [(List.cons.inj h).1, hc] at hd
  cases a with
  | bool b => cases b <;> cases hd
  | _ => cases hd

theorem stops_itemsText (f : NumberFormat Number) (items : List (Json Number)) (u : List Char) :
    Stops (itemsText f items ++ u) := by
  cases items <;> (rintro c ⟨⟩; rfl)

theorem stops_membersText (f : NumberFormat Number) (members : List (String × Json Number))
    (u : List Char) : Stops (membersText f members ++ u) := by
  cases members <;> (rintro c ⟨⟩; rfl)

/-- Two numbers with a stop behind them. -/
theorem numbers_inj {xs ys u v : List Char} (hx : ∀ c ∈ xs, isNumberChar c = true)
    (hy : ∀ c ∈ ys, isNumberChar c = true) (hu : Stops u) (hv : Stops v) (h : xs ++ u = ys ++ v) :
    xs = ys ∧ u = v := by
  induction xs generalizing ys with
  | nil =>
    cases ys with
    | nil => exact ⟨rfl, h⟩
    | cons d ys =>
      have hd := hu d (by rw [show u = _ from h]; rfl)
      rw [hy d List.mem_cons_self] at hd
      cases hd
  | cons c xs ih =>
    cases ys with
    | nil =>
      have hc := hv c (by rw [show v = _ from h.symm]; rfl)
      rw [hx c List.mem_cons_self] at hc
      cases hc
    | cons d ys =>
      obtain ⟨rfl, htail⟩ := List.cons.inj h
      obtain ⟨rfl, rfl⟩ := ih (fun c hc => hx c (List.mem_cons_of_mem _ hc))
        (fun c hc => hy c (List.mem_cons_of_mem _ hc)) htail
      exact ⟨rfl, rfl⟩

mutual

/-- **A text is read in one way**, whatever stands behind it. -/
theorem text_inj (f : NumberFormat Number) : ∀ (a b : Json Number) {u v : List Char},
    Stops u → Stops v → a.text f ++ u = b.text f ++ v → a = b ∧ u = v
  | a, b, u, v, hu, hv, h => by
    have hkind : a.kind = b.kind := by
      obtain ⟨c, rest, ha, hc⟩ := text_head f a
      obtain ⟨d, rest', hb, hd⟩ := text_head f b
      rw [ha, hb] at h
      rw [← hc, ← hd, (List.cons.inj h).1]
    cases a with
    | null =>
      cases b with
      | null => exact ⟨rfl, List.append_cancel_left h⟩
      | bool b => cases b <;> cases hkind
      | _ => cases hkind
    | bool b₁ =>
      cases b with
      | bool b₂ =>
        cases b₁ <;> cases b₂ <;> first | exact ⟨rfl, List.append_cancel_left h⟩ | cases hkind
      | _ => cases b₁ <;> cases hkind
    | number m =>
      cases b with
      | number n =>
        obtain ⟨hmn, rfl⟩ := numbers_inj (f.chars m) (f.chars n) hu hv h
        exact ⟨congrArg number (f.injective hmn), rfl⟩
      | bool b => cases b <;> cases hkind
      | _ => cases hkind
    | string s =>
      cases b with
      | string s' =>
        obtain ⟨rfl, rfl⟩ := quote_inj h
        exact ⟨rfl, rfl⟩
      | bool b => cases b <;> cases hkind
      | _ => cases hkind
    | array items =>
      cases b with
      | array items' =>
        cases items with
        | nil =>
          cases items' with
          | nil => exact ⟨rfl, List.append_cancel_left h⟩
          | cons y ys =>
            rw [text_array_cons] at h
            exact absurd (List.cons.inj h).2.symm (text_ne_closing f y (by decide))
        | cons x xs =>
          cases items' with
          | nil =>
            rw [text_array_cons] at h
            exact absurd (List.cons.inj h).2 (text_ne_closing f x (by decide))
          | cons y ys =>
            rw [text_array_cons, text_array_cons] at h
            obtain ⟨rfl, hrest⟩ := text_inj f x y (stops_itemsText f xs u) (stops_itemsText f ys v)
              (List.cons.inj h).2
            obtain ⟨rfl, rfl⟩ := itemsText_inj f xs ys hrest
            exact ⟨rfl, rfl⟩
      | bool b => cases b <;> cases hkind
      | _ => cases hkind
    | object members =>
      cases b with
      | object members' =>
        cases members with
        | nil =>
          cases members' with
          | nil => exact ⟨rfl, List.append_cancel_left h⟩
          | cons y ys => exact absurd (List.cons.inj (List.cons.inj h).2).1 (by decide)
        | cons x xs =>
          cases members' with
          | nil => exact absurd (List.cons.inj (List.cons.inj h).2).1 (by decide)
          | cons y ys =>
            obtain ⟨key, x⟩ := x
            obtain ⟨key', y⟩ := y
            rw [text_object_cons, text_object_cons] at h
            obtain ⟨rfl, hvalue⟩ := quote_inj (List.cons.inj h).2
            obtain ⟨rfl, hrest⟩ := text_inj f x y (stops_membersText f xs u)
              (stops_membersText f ys v) (List.cons.inj hvalue).2
            obtain ⟨rfl, rfl⟩ := membersText_inj f xs ys hrest
            exact ⟨rfl, rfl⟩
      | bool b => cases b <;> cases hkind
      | _ => cases hkind

theorem itemsText_inj (f : NumberFormat Number) : ∀ (xs ys : List (Json Number)) {u v : List Char},
    itemsText f xs ++ u = itemsText f ys ++ v → xs = ys ∧ u = v
  | [], [], _, _, h => ⟨rfl, List.append_cancel_left h⟩
  | [], _ :: _, _, _, h => absurd (List.cons.inj h).1 (by decide)
  | _ :: _, [], _, _, h => absurd (List.cons.inj h).1 (by decide)
  | x :: xs, y :: ys, u, v, h => by
    rw [itemsText_cons, itemsText_cons] at h
    obtain ⟨rfl, hrest⟩ := text_inj f x y (stops_itemsText f xs u) (stops_itemsText f ys v)
      (List.cons.inj h).2
    obtain ⟨rfl, rfl⟩ := itemsText_inj f xs ys hrest
    exact ⟨rfl, rfl⟩

theorem membersText_inj (f : NumberFormat Number) :
    ∀ (xs ys : List (String × Json Number)) {u v : List Char},
      membersText f xs ++ u = membersText f ys ++ v → xs = ys ∧ u = v
  | [], [], _, _, h => ⟨rfl, List.append_cancel_left h⟩
  | [], _ :: _, _, _, h => absurd (List.cons.inj h).1 (by decide)
  | _ :: _, [], _, _, h => absurd (List.cons.inj h).1 (by decide)
  | (key, x) :: xs, (key', y) :: ys, u, v, h => by
    rw [membersText_cons, membersText_cons] at h
    obtain ⟨rfl, hvalue⟩ := quote_inj (List.cons.inj h).2
    obtain ⟨rfl, hrest⟩ := text_inj f x y (stops_membersText f xs u) (stops_membersText f ys v)
      (List.cons.inj hvalue).2
    obtain ⟨rfl, rfl⟩ := membersText_inj f xs ys hrest
    exact ⟨rfl, rfl⟩

end

theorem text_injective (f : NumberFormat Number) : Function.Injective (text f) := by
  intro a b h
  have hstops : Stops [] := nofun
  exact (text_inj f a b hstops hstops (by rw [h])).1


/-- A property of all values, from the items of arrays and the values of members. -/
theorem induct {motive : Json Number → Prop} (null : motive null) (bool : ∀ b, motive (bool b))
    (number : ∀ n, motive (number n)) (string : ∀ s, motive (string s))
    (array : ∀ items, (∀ x ∈ items, motive x) → motive (array items))
    (object : ∀ members, (∀ p ∈ members, motive p.2) → motive (object members)) (a : Json Number) :
    motive a := by
  refine @Json.rec Number motive (fun items => ∀ x ∈ items, motive x)
    (fun members => ∀ p ∈ members, motive p.2) (fun p => motive p.2) null bool number string array
    object ?_ ?_ ?_ ?_ (fun _ _ h => h) a
  · exact nofun
  · exact fun item rest hitem hrest => List.forall_mem_cons.mpr ⟨hitem, hrest⟩
  · exact nofun
  · exact fun member rest hmember hrest => List.forall_mem_cons.mpr ⟨hmember, hrest⟩

/-! ## What is where in a value -/

/-- A value without what it holds. -/
inductive Node (Number : Type)
  | null
  | bool (b : Bool)
  | number (n : Number)
  | string (s : String)
  | array (length : Nat)
  | object

inductive Step
  | item (index : Nat)
  | member (key : String)

def node : Json Number → Node Number
  | null => .null
  | bool b => .bool b
  | number n => .number n
  | string s => .string s
  | array items => .array items.length
  | object _ => .object

def child : Json Number → Step → Option (Json Number)
  | array items, .item index => items[index]?
  | object members, .member key => members.lookup key
  | _, _ => none

def nodeAt : Json Number → List Step → Option (Node Number)
  | a, [] => some a.node
  | a, step :: path => (a.child step).bind fun b => b.nodeAt path

/-- Two values are the same up to the order of members and what is under the key `hidden`. -/
def SameBut (hidden : String) (a b : Json Number) : Prop :=
  ∀ path, Step.member hidden ∉ path → a.nodeAt path = b.nodeAt path

/-- Two values are the same up to the order of members. -/
def Same (a b : Json Number) : Prop := ∀ path, a.nodeAt path = b.nodeAt path

theorem Same.child {a b x y : Json Number} {step : Step} (h : a.Same b)
    (hx : a.child step = some x) (hy : b.child step = some y) : x.Same y := by
  intro path
  have hpath := h (step :: path)
  unfold nodeAt at hpath
  rwa [hx, hy] at hpath

theorem Same.isSome_child {a b : Json Number} (h : a.Same b) (step : Step) :
    (a.child step).isSome = (b.child step).isSome := by
  have hpath := congrArg Option.isSome (h [step])
  unfold nodeAt at hpath
  cases hx : a.child step <;> cases hy : b.child step <;> rw [hx, hy] at hpath <;>
    first | rfl | exact hpath

end Json
