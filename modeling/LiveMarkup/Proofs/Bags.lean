import LiveMarkup.Proofs.Fields
import LiveMarkup.Proofs.WrittenForms

/-!
# Attribute bags

Bags are laid over each other: names of their own win over defaults, and only classes are joined. As
a joined class is its own text, layers can be put together in any grouping.

Printed, a bag is a row of items with blanks between them. No text can end its quotes early, since
quotes inside of it are escaped, so the items can be told apart and read back.
-/

namespace LiveMarkup

open List Prod

namespace Table

variable {t : Table α}

lemma contains_iff : t.contains k = true ↔ k ∈ t.keys := by
  rw [contains, Option.isSome_iff_ne_none, get?, Ne, lookup_eq_none_iff]
  simp [keys]

lemma keys_insertAll (t : Table α) (hes : (es.map fst).Nodup) :
    (t.insertAll es).keys = t.keys ++ (es.map fst).filter (· ∉ t.keys) := by
  induction es generalizing t with
  | nil => simp [insertAll]
  | cons e es ih =>
    obtain ⟨hnew, hes⟩ := nodup_cons.mp hes
    have hrest : (t.insertAll (e :: es)).keys = ((t.insert e.1 e.2).insertAll es).keys := rfl
    rw [hrest, ih _ hes, keys_insert]
    simp only [contains_iff]
    by_cases he : e.1 ∈ t.keys
    · simp [he]
    · have hsame : (es.map fst).filter (· ∉ t.keys ++ [e.1]) =
          (es.map fst).filter (· ∉ t.keys) := by
        refine filter_congr fun k hk => ?_
        have hne : k ≠ e.1 := fun heq => hnew (heq ▸ hk)
        simp [hne]
      rw [if_neg he, hsame, map_cons, filter_cons_of_pos (by simpa using he), append_assoc]
      rfl

lemma get?_insertAll (t : Table α) (hes : (es.map fst).Nodup) (k : String) :
    (t.insertAll es).get? k = (es.lookup k).or (t.get? k) := by
  induction es generalizing t with
  | nil => rfl
  | cons e es ih =>
    obtain ⟨hnew, hes⟩ := nodup_cons.mp hes
    have hrest : (t.insertAll (e :: es)).get? k = ((t.insert e.1 e.2).insertAll es).get? k := rfl
    rw [hrest, ih _ hes, get?_insert, lookup_cons]
    by_cases hk : k = e.1
    · have hnone : es.lookup k = none := by
        rw [lookup_eq_none_iff]
        intro p hp
        have hne : e.1 ≠ p.1 := fun heq => hnew (heq ▸ mem_map_of_mem hp)
        simpa [hk] using hne
      simp [hk, hk ▸ hnone]
    · rw [if_neg hk, beq_eq_false_iff_ne.mpr hk]

/-- A table is its names in order and what stands under each. -/
lemma eq_of_get? (ht : t.Distinct) (hkeys : t.keys = t'.keys) (hget : ∀ k, t.get? k = t'.get? k) :
    t = t' := by
  obtain ⟨es⟩ := t
  obtain ⟨es'⟩ := t'
  congr
  replace hget : ∀ k ∈ es.map fst, es.lookup k = es'.lookup k := fun k _ => hget k
  replace hkeys : es.map fst = es'.map fst := hkeys
  replace ht : (es.map fst).Nodup := ht
  induction es generalizing es' with
  | nil => exact (map_eq_nil_iff.mp hkeys.symm).symm
  | cons e es ih =>
    cases es' with
    | nil => cases hkeys
    | cons e' es' =>
      obtain ⟨k, v⟩ := e
      obtain ⟨k', v'⟩ := e'
      obtain ⟨rfl, hrest⟩ := cons_eq_cons.mp hkeys
      obtain ⟨hnew, hes⟩ := nodup_cons.mp ht
      obtain rfl : v = v' := by simpa using hget k (by simp)
      rw [ih es' (fun name hname => ?_) hrest hes]
      have hne : (name == k) = false := beq_eq_false_iff_ne.mpr fun heq => hnew (heq ▸ hname)
      simpa [lookup_cons, hne] using hget name (mem_cons_of_mem _ hname)

end Table

/-! ## Layers -/

lemma Reading.gives_bind_iff (hm : (∃ a, Gives m a) ∨ IsEndless m)
    (hf : ∀ a, (∃ b, Gives (f a) b) ∨ IsEndless (f a)) :
    Gives (m >>= f) b ↔ ∃ a, Gives m a ∧ Gives (f a) b := by
  refine ⟨fun hb => ?_, fun ⟨a, ha, hfa⟩ => ha.bind hfa⟩
  obtain ⟨a, ha⟩ | hend := hm
  · obtain ⟨b', hb'⟩ | hend := hf a
    · rw [hb.unique (ha.bind hb')]
      exact ⟨a, ha, hb'⟩
    · exact absurd (ha.bind_isEndless hend) hb.not_isEndless
  · exact absurd (hend.bind f) hb.not_isEndless

namespace Heap

open Reading

variable {text : Value → String} {a b : Table Value} {h : Heap}

/-- The value that a name has in two layers, if it is the class. -/
def layeredClass (text : Value → String) : Option Value → Option Value → Option Value
  | some v, some default => some (.text (text default ++ " " ++ text v))
  | own, default => own.or default

lemma layeredClass_assoc (htext : ∀ s, text (.text s) = s) (x y z : Option Value) :
    layeredClass text (layeredClass text x y) z = layeredClass text x (layeredClass text y z) := by
  cases x <;> cases y <;> cases z <;> simp [layeredClass, htext, String.append_assoc]

/-- Attributes laid over defaults, if values have texts. -/
def layer (text : Value → String) (own defaults : Table Value) : Table Value :=
  match defaults.get? "class", own.get? "class" with
  | some first, some second =>
    (defaults.insertAll own.entries).insert "class" (.text (text first ++ " " ++ text second))
  | _, _ => defaults.insertAll own.entries

lemma get?_layer (hown : own.Distinct) (k : String) : (layer text own defaults).get? k =
      if k = "class" then layeredClass text (own.get? k) (defaults.get? k)
      else (own.get? k).or (defaults.get? k) := by
  have hget := Table.get?_insertAll defaults hown k
  change _ = (own.get? k).or _ at hget
  rw [layer]
  split
  next first second hfirst hsecond =>
    rw [Table.get?_insert, hget]
    split_ifs with hk
    · rw [hk, hfirst, hsecond]
      rfl
    · rfl
  next hnot =>
    rw [hget]
    split_ifs with hk
    · subst hk
      cases hsecond : own.get? "class" <;> cases hfirst : defaults.get? "class"
      case some.some => exact absurd hsecond (hnot _ _ hfirst)
      all_goals rfl
    · rfl

lemma keys_layer (hown : own.Distinct) :
    (layer text own defaults).keys = defaults.keys ++ own.keys.filter (· ∉ defaults.keys) := by
  have hkeys : (defaults.insertAll own.entries).keys =
      defaults.keys ++ own.keys.filter (· ∉ defaults.keys) := Table.keys_insertAll defaults hown
  rw [layer]
  split
  next first second hfirst hsecond =>
    have hmem : "class" ∈ defaults.keys := mem_map_of_mem (mem_of_lookup hfirst)
    rw [Table.keys_insert, if_pos (Table.contains_iff.mpr (hkeys ▸ mem_append_left _ hmem)), hkeys]
  next => exact hkeys

lemma distinct_layer (hown : own.Distinct) (hdefaults : defaults.Distinct) :
    (layer text own defaults).Distinct := by
  rw [Table.Distinct, keys_layer hown, nodup_append]
  refine ⟨hdefaults, hown.filter _, fun k hk k' hk' heq => ?_⟩
  simp [← heq, hk] at hk'

lemma layer_empty (ha : a.Distinct) : layer text a {} = a := by
  refine Table.eq_of_get? (distinct_layer ha nodup_nil) ?_ fun k => ?_
  · rw [keys_layer ha]
    exact filter_true _
  · rw [get?_layer ha]
    change (if k = "class" then layeredClass text _ none else Option.or _ none) = _
    cases a.get? k <;> simp [layeredClass]

lemma empty_layer (text : Value → String) (c : Table Value) : layer text {} c = c := by
  rw [layer]
  cases c.get? "class" <;> rfl

lemma layer_assoc (htext : ∀ s, text (.text s) = s) (ha : a.Distinct) (hb : b.Distinct)
    (hc : c.Distinct) : layer text (layer text a b) c = layer text a (layer text b c) := by
  have hab : (layer text a b).Distinct := distinct_layer ha hb
  refine Table.eq_of_get? (distinct_layer hab hc) ?_ fun k => ?_
  · simp only [keys_layer hab, keys_layer ha, keys_layer hb, filter_append, append_assoc,
      filter_filter]
    congr 2
    refine filter_congr fun k _ => ?_
    by_cases hk : k ∈ c.keys <;> simp [hk]
  · simp only [get?_layer hab, get?_layer ha, get?_layer hb]
    split_ifs
    · exact layeredClass_assoc htext _ _ _
    · exact Option.or_assoc

/-- The value has a text. -/
def HasText (h : Heap) (v : Value) : Prop :=
  ∃ s, Gives (h.display v) s

lemma gives_display_text (h : Heap) (s : String) : Gives (h.display (.text s)) s := by
  have hpos : 0 < h.nesting := Nat.mul_pos (Nat.succ_pos _) (Nat.succ_pos _)
  obtain ⟨n, hn⟩ := Nat.exists_eq_add_one_of_ne_zero hpos.ne'
  exact .pure s

lemma hasText_text (h : Heap) (s : String) : h.HasText (.text s) := ⟨s, h.gives_display_text s⟩

/-- Classes that are joined need texts. -/
def Joinable (h : Heap) : Option Value → Option Value → Prop
  | some v, some default => h.HasText v ∧ h.HasText default
  | _, _ => True

lemma joinable_assoc (h : Heap) (text : Value → String) (x y z : Option Value) :
    h.Joinable x y ∧ h.Joinable (layeredClass text x y) z ↔
      h.Joinable y z ∧ h.Joinable x (layeredClass text y z) := by
  cases x <;> cases y <;> cases z <;>
    simp [layeredClass, Joinable, hasText_text, and_comm, and_assoc]

section

variable (htext : ∀ v s, Gives (h.display v) s → text v = s)
include htext

lemma mergeAttributes_cases (own defaults : Table Value) :
    h.Joinable (own.get? "class") (defaults.get? "class") ∧
        Gives (mergeAttributes h.display own defaults) (layer text own defaults) ∨
      ¬ h.Joinable (own.get? "class") (defaults.get? "class") ∧
        IsEndless (mergeAttributes h.display own defaults) := by
  have hcases (v : Value) : h.HasText v ∨ IsEndless (h.display v) :=
    (follows_displayWithin h h.nesting [] v).imp And.left And.left
  rw [mergeAttributes, joinedClass, layer]
  cases hfirst : defaults.get? "class" with
  | none => exact .inl ⟨by cases own.get? "class" <;> trivial, .bind (.pure none) (.pure _)⟩
  | some first =>
    cases hsecond : own.get? "class" with
    | none => exact .inl ⟨trivial, .bind (.pure none) (.pure _)⟩
    | some second =>
      obtain ⟨d, hd⟩ | hend := hcases first
      · obtain ⟨v, hv⟩ | hend := hcases second
        · obtain rfl := htext _ _ hd
          obtain rfl := htext _ _ hv
          exact .inl ⟨⟨⟨_, hv⟩, _, hd⟩, .bind (.bind hd (.bind hv (.pure _))) (.pure _)⟩
        · exact .inr ⟨fun hj => hj.1.choose_spec.not_isEndless hend,
            .bind (hd.bind_isEndless (.bind hend _)) _⟩
      · exact .inr ⟨fun hj => hj.2.choose_spec.not_isEndless hend, .bind (.bind hend _) _⟩

lemma mergeAttributes_ends (own defaults : Table Value) :
    (∃ t, Gives (mergeAttributes h.display own defaults) t) ∨
      IsEndless (mergeAttributes h.display own defaults) :=
  (mergeAttributes_cases htext own defaults).imp (fun hj => ⟨_, hj.2⟩) And.right

lemma gives_mergeAttributes_iff :
    Gives (mergeAttributes h.display own defaults) t ↔
      h.Joinable (own.get? "class") (defaults.get? "class") ∧ t = layer text own defaults := by
  obtain ⟨hj, hgives⟩ | ⟨hj, hend⟩ := mergeAttributes_cases htext own defaults
  · exact ⟨fun ht => ⟨hj, ht.unique hgives⟩, fun ⟨_, heq⟩ => heq ▸ hgives⟩
  · exact ⟨fun ht => absurd hend ht.not_isEndless, fun ⟨hj', _⟩ => absurd hj' hj⟩

lemma gives_merge_bind_iff (own defaults t : Table Value)
    (hf : ∀ x, (∃ t, Gives (f x) t) ∨ IsEndless (f x)) :
    Gives (mergeAttributes h.display own defaults >>= f) t ↔
      h.Joinable (own.get? "class") (defaults.get? "class") ∧
        Gives (f (layer text own defaults)) t := by
  simp only [gives_bind_iff (mergeAttributes_ends htext own defaults) hf, gives_mergeAttributes_iff htext]
  constructor
  · rintro ⟨_, ⟨hj, rfl⟩, ht⟩
    exact ⟨hj, ht⟩
  · rintro ⟨hj, ht⟩
    exact ⟨_, ⟨hj, rfl⟩, ht⟩

end

/-- Layers can be put together in any grouping: where one grouping has a result, so has the other,
and it is the same table. Two layers have none only if both have a class, and one of these has no
text. -/
theorem mergeAttributes_assoc (h : Heap) (ha : a.Distinct) (hb : b.Distinct) (hc : c.Distinct) :
    let merge := mergeAttributes h.display
    Gives (merge a {}) a ∧ Gives (merge {} c) c ∧
      (∀ t, Gives (merge a b >>= (merge · c)) t ↔ Gives (merge b c >>= merge a) t) ∧
      ((∃ t, Gives (merge a b) t) ↔ h.Joinable (a.get? "class") (b.get? "class")) ∧
      ∀ t, Gives (merge a b) t →
        t.keys = b.keys ++ a.keys.filter (· ∉ b.keys) ∧ t.keys.Nodup := by
  intro merge
  have hdisplay (v : Value) : ∃ t, ∀ s, Gives (h.display v) s → t = s := by
    by_cases hv : h.HasText v
    · exact ⟨hv.choose, fun s hs => hv.choose_spec.unique hs⟩
    · exact ⟨"", fun s hs => absurd ⟨s, hs⟩ hv⟩
  choose text htext using hdisplay
  have htexts (s : String) : text (.text s) = s := htext _ _ (h.gives_display_text s)
  have hends := mergeAttributes_ends htext
  have hleft (t : Table Value) := gives_merge_bind_iff htext a b t (hends · c)
  have hright (t : Table Value) := gives_merge_bind_iff htext b c t (hends a)
  have hclasses := joinable_assoc h text (a.get? "class") (b.get? "class") (c.get? "class")
  simp only [gives_mergeAttributes_iff htext, get?_layer ha, get?_layer hb, if_pos,
    ← and_assoc] at hleft hright
  refine ⟨?_, ?_, fun t => ?_, ?_, fun t ht => ?_⟩
  · exact (gives_mergeAttributes_iff htext).mpr
      ⟨by cases a.get? "class" <;> trivial, (layer_empty ha).symm⟩
  · exact (gives_mergeAttributes_iff htext).mpr
      ⟨by cases c.get? "class" <;> trivial, (empty_layer text c).symm⟩
  · rw [hleft, hright, hclasses, layer_assoc htexts ha hb hc]
  · exact ⟨fun ⟨t, ht⟩ => ((gives_mergeAttributes_iff htext).mp ht).1,
      fun hj => ⟨_, (gives_mergeAttributes_iff htext).mpr ⟨hj, rfl⟩⟩⟩
  · obtain ⟨-, rfl⟩ := (gives_mergeAttributes_iff htext).mp ht
    exact ⟨keys_layer ha, distinct_layer ha hb⟩

/-- Three layers with a class each, and a name that only the innermost one has. -/
theorem mergeAttributes_assoc_classes :
    let merge := mergeAttributes ({} : Heap).display
    let a : Table Value := ⟨[("id", .text "i"), ("class", .text "x")]⟩
    let b : Table Value := ⟨[("class", .text "y"), ("id", .null)]⟩
    let c : Table Value := ⟨[("href", .text "#"), ("class", .text "z")]⟩
    let t : Table Value := ⟨[("href", .text "#"), ("class", .text "z y x"), ("id", .text "i")]⟩
    Gives (merge a b >>= (merge · c)) t ∧ Gives (merge b c >>= merge a) t := by
  intro merge a b c t
  have hleft : Gives (merge a b >>= (merge · c)) t := fun slots => ⟨slots, rfl⟩
  have ha : a.Distinct := by simp [Table.Distinct, Table.keys, a]
  have hb : b.Distinct := by simp [Table.Distinct, Table.keys, b]
  have hc : c.Distinct := by simp [Table.Distinct, Table.keys, c]
  exact ⟨hleft, ((mergeAttributes_assoc {} ha hb hc).2.2.1 t).mp hleft⟩

end Heap

/-! ## Printed attributes -/

namespace Text

/-- Undoes the escaping of the five special characters. -/
def unescapeHtml : List Char → List Char
  | '&' :: 'a' :: 'm' :: 'p' :: ';' :: cs => '&' :: unescapeHtml cs
  | '&' :: 'l' :: 't' :: ';' :: cs => '<' :: unescapeHtml cs
  | '&' :: 'g' :: 't' :: ';' :: cs => '>' :: unescapeHtml cs
  | '&' :: 'q' :: 'u' :: 'o' :: 't' :: ';' :: cs => '"' :: unescapeHtml cs
  | '&' :: '#' :: 'x' :: '2' :: '7' :: ';' :: cs => '\'' :: unescapeHtml cs
  | c :: cs => c :: unescapeHtml cs
  | [] => []

lemma unescapeHtml_escapeHtmlChar (c : Char) (cs : List Char) :
    unescapeHtml ((escapeHtmlChar c).toList ++ cs) = c :: unescapeHtml cs := by
  by_cases hc : c ∈ specials
  · simp only [specials, mem_cons, not_mem_nil, or_false] at hc
    rcases hc with rfl | rfl | rfl | rfl | rfl <;> rfl
  · obtain ⟨-, hself⟩ | ⟨hspecial, -⟩ := toList_escapeHtmlChar c
    · have hamp : c ≠ '&' := fun heq => hc (by simp [heq, specials])
      rw [hself, singleton_append]
      simp [unescapeHtml, hamp]
    · exact absurd hspecial hc

lemma unescapeHtml_escapeHtml (s : String) : unescapeHtml (escapeHtml s).toList = s.toList := by
  rw [toList_escapeHtml]
  induction s.toList with
  | nil => rfl
  | cons c cs ih => rw [flatMap_cons, unescapeHtml_escapeHtmlChar, ih]

end Text

namespace Markup

/-- An attribute as it is printed: a name, and a text unless it stands alone. -/
abbrev Item := String × Option String

/-- The items up to the next blanks that are not quoted; `item` holds the current one, last
character first. -/
def cutItems (quoted : Bool) (item : List Char) : List Char → List (List Char)
  | [] => [item.reverse]
  | c :: cs =>
    if c = ' ' ∧ quoted = false then item.reverse :: cutItems false [] cs
    else cutItems (if c = '"' then !quoted else quoted) (c :: item) cs

/-- A name, or a name and a text in quotes. -/
def readItem (cs : List Char) : Option Item :=
  let name := String.ofList (cs.takeWhile (· != '='))
  match cs.dropWhile (· != '=') with
  | [] => some (name, none)
  | '=' :: '"' :: text =>
    if text.getLast? = some '"' then
      some (name, some (String.ofList (Text.unescapeHtml text.dropLast)))
    else none
  | _ => none

/-- Items with blanks between them. -/
def readPrinted (s : String) : Option (List Item) :=
  if s.isEmpty then some [] else (cutItems false [] s.toList).mapM readItem

def writeItem : Item → String
  | (name, none) => name
  | (name, some s) => name ++ "=\"" ++ Text.escapeHtml s ++ "\""

/-- A name that can be told from what stands around it. -/
structure IsPlainName (name : String) : Prop where
  ne_empty : name ≠ ""
  blank : ' ' ∉ name.toList
  quote : '"' ∉ name.toList
  sign : '=' ∉ name.toList

lemma cutItems_append (hquote : '"' ∉ cs) (hblank : quoted = false → ' ' ∉ cs)
    (item rest : List Char) :
    cutItems quoted item (cs ++ rest) = cutItems quoted (cs.reverse ++ item) rest := by
  induction cs generalizing item with
  | nil => rfl
  | cons c cs ih =>
    obtain ⟨hc, hquote⟩ := not_or.mp (mt mem_cons.mpr hquote)
    have hstay : ¬ (c = ' ' ∧ quoted = false) := fun ⟨hc, hq⟩ => hblank hq (by simp [hc])
    rw [cons_append, cutItems, if_neg hstay, if_neg (Ne.symm hc),
      ih hquote fun hq hmem => hblank hq (mem_cons_of_mem _ hmem)]
    simp

lemma cutItems_writeItem (hname : IsPlainName i.1) (item rest : List Char) :
    cutItems false item ((writeItem i).toList ++ rest) =
      cutItems false ((writeItem i).toList.reverse ++ item) rest := by
  obtain ⟨name, _ | s⟩ := i
  · exact cutItems_append hname.quote (fun _ => hname.blank) item rest
  · have htext := (Text.unquoted_escapeHtml s).double
    have hquoted : (writeItem (name, some s)).toList ++ rest =
        name.toList ++ ('=' :: '"' :: ((Text.escapeHtml s).toList ++ ('"' :: rest))) := by
      simp [writeItem]
    rw [hquoted, cutItems_append hname.quote fun _ => hname.blank]
    have hinside (item rest : List Char) := cutItems_append htext (fun h : true = false => nomatch h)
      item rest
    simp [cutItems, writeItem, hinside]

lemma cutItems_intercalate (hne : items ≠ []) (hnames : ∀ i ∈ items, IsPlainName i.1) :
    cutItems false [] (" ".intercalate (items.map writeItem)).toList =
      items.map fun i => (writeItem i).toList := by
  induction items with
  | nil => exact absurd rfl hne
  | cons i items ih =>
    obtain ⟨hi, hitems⟩ := forall_mem_cons.mp hnames
    cases items with
    | nil => simpa [cutItems] using cutItems_writeItem hi [] []
    | cons j items =>
      rw [map_cons, map_cons, String.intercalate_cons_cons, String.toList_append,
        String.toList_append, append_assoc, cutItems_writeItem hi, map_cons, ← map_cons (f := writeItem)]
      have hblank (item rest : List Char) :
          cutItems false item (" ".toList ++ rest) = item.reverse :: cutItems false [] rest := rfl
      rw [hblank, ih (cons_ne_nil _ _) hitems]
      simp

lemma readItem_writeItem (hname : IsPlainName i.1) : readItem (writeItem i).toList = some i := by
  have hall : ∀ c ∈ i.1.toList, (c != '=') = true := fun c hc =>
    bne_iff_ne.mpr fun heq => hname.sign (heq ▸ hc)
  obtain ⟨name, _ | s⟩ := i
  · simp only [readItem, writeItem, dropWhile_eq_nil_iff.mpr hall, takeWhile_eq_self_iff.mpr hall,
      String.ofList_toList]
  · have hwritten : (writeItem (name, some s)).toList =
        name.toList ++ ('=' :: '"' :: ((Text.escapeHtml s).toList ++ ['"'])) := by
      simp [writeItem]
    rw [readItem, hwritten, takeWhile_append_of_pos hall, dropWhile_append_of_pos hall]
    simp [Text.unescapeHtml_escapeHtml]

lemma writeItem_ne_empty (hname : IsPlainName i.1) : (writeItem i).toList ≠ [] := by
  intro hempty
  have hread := readItem_writeItem hname
  rw [hempty] at hread
  exact hname.ne_empty (Option.some.inj hread ▸ rfl)

lemma mapM_readItem {items : List Item} (hnames : ∀ i ∈ items, IsPlainName i.1) :
    (items.map fun i => (writeItem i).toList).mapM readItem = some items := by
  induction items with
  | nil => rfl
  | cons i items ih =>
    obtain ⟨hi, hitems⟩ := forall_mem_cons.mp hnames
    simp [readItem_writeItem hi, ih hitems]

lemma readPrinted_intercalate {items : List Item} (hnames : ∀ i ∈ items, IsPlainName i.1) :
    readPrinted (" ".intercalate (items.map writeItem)) = some items := by
  cases items with
  | nil => rfl
  | cons i items =>
    have hcut := cutItems_intercalate (cons_ne_nil i items) hnames
    rw [readPrinted, hcut, mapM_readItem hnames, if_neg]
    intro hempty
    rw [String.isEmpty_iff.mp hempty] at hcut
    exact writeItem_ne_empty (hnames i mem_cons_self) (cons_eq_cons.mp hcut).1.symm

end Markup

namespace Heap

open Reading Markup

/-- What is printed of an attribute: names of true ones, nothing of those that are false or absent,
and names and texts of all others. -/
def shownItem (text : Value → String) : String × Value → Option Item
  | (name, .bool true) => some (name, none)
  | (_, .bool false) | (_, .null) | (_, .undefined) => none
  | (name, v) => some (name, some (text v))

lemma name_of_shownItem (hi : shownItem text e = some i) : i.1 = e.1 := by
  rw [shownItem.eq_def] at hi
  split at hi <;> cases hi <;> rfl

lemma gives_attributeHtml {display : Value → Reading String} (hv : Gives (display v) (text v))
    (name : String) :
    Gives (attributeHtml display name v) ((shownItem text (name, v)).map writeItem) := by
  cases v with
  | bool b => cases b <;> exact .pure _
  | null | undefined => exact .pure _
  | _ => exact .bind hv (.pure _)

/-- Printed attributes can be read back: in order, those that are neither false nor absent, the true
ones as bare names and all others with their texts. -/
theorem readPrinted_attributesHtml (h : Heap) {attrs : Table Value} {text : Value → String}
    (hnames : ∀ name ∈ attrs.keys, IsPlainName name)
    (htext : ∀ e ∈ attrs.entries, Gives (h.display e.2) (text e.2)) :
    ∃ html, Gives (attributesHtml h.display attrs) html ∧
      readPrinted html = some (attrs.entries.filterMap (shownItem text)) := by
  have hparts := gives_mapM fun e he => gives_attributeHtml (htext e he) e.1
  refine ⟨_, hparts.bind (.pure _), ?_⟩
  have hitems : (attrs.entries.map fun e => (shownItem text e).map writeItem).filterMap id =
      (attrs.entries.filterMap (shownItem text)).map writeItem := by
    rw [filterMap_map, map_filterMap]
    rfl
  rw [hitems]
  refine readPrinted_intercalate fun i hi => ?_
  obtain ⟨e, he, hei⟩ := mem_filterMap.mp hi
  rw [name_of_shownItem hei]
  exact hnames _ (mem_map_of_mem he)

/-- A text that looks like attributes and entities stays one text. -/
theorem readPrinted_attributesHtml_markup :
    let attrs : Table Value :=
      ⟨[("title", .text "x\" y='&lt;>"), ("checked", .bool true), ("hidden", .bool false)]⟩
    ∃ html, Gives (attributesHtml ({} : Heap).display attrs) html ∧
      readPrinted html = some [("title", some "x\" y='&lt;>"), ("checked", none)] := by
  intro attrs
  let text : Value → String
    | .text s => s
    | .bool b => if b then "true" else "false"
    | _ => ""
  have hnames : ∀ name ∈ attrs.keys, IsPlainName name := by
    rw [show attrs.keys = ["title", "checked", "hidden"] from rfl]
    simp only [forall_mem_cons, not_mem_nil, false_implies, implies_true, and_true]
    exact ⟨⟨by decide, by decide, by decide, by decide⟩, ⟨by decide, by decide, by decide, by decide⟩,
      ⟨by decide, by decide, by decide, by decide⟩⟩
  have htext : ∀ e ∈ attrs.entries, Gives (({} : Heap).display e.2) (text e.2) := by
    simp only [attrs, forall_mem_cons, not_mem_nil, false_implies, implies_true, and_true]
    exact ⟨.pure _, .pure _, .pure _⟩
  exact readPrinted_attributesHtml {} hnames htext

end Heap

end LiveMarkup
