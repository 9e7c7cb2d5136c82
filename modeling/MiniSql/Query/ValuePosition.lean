import MiniSql.Query.Derivations

/-!
# A value and the statement around it

The part of a statement in front of one of its values is read without looking at the
value. So the value may be replaced by another one, and a text that begins with this
part has its value at the same place.
-/

namespace MiniSql.Query

/-- The query of a tree with another value in front of `post`. -/
def Tree.fill (post value : Bytes) : Tree → Query
  | .select t => ⟨.select, some t.table, [], t.condition.map fun w =>
      ⟨w.column, if w.afterValue = post then value else w.value⟩⟩
  | .insert t => ⟨.insert, some t.table, t.items.map fun item =>
      if item.afterValue = post then value else item.value, none⟩

/-! ## In front of a value and behind it -/

/-- The values of a list that are read before the cursor. -/
inductive ValuesUpTo : Bytes → List Bytes → Bytes → Prop
  | here {s : Bytes} : ValuesUpTo s [] s
  | next {s v afterValue afterMark cursor : Bytes} {values : List Bytes} (value : Value s v afterValue)
      (separator : Symbol comma afterValue afterMark) (rest : ValuesUpTo afterMark values cursor) :
      ValuesUpTo s (v :: values) cursor

/-- How a list goes on behind a value. -/
inductive ValuesFrom : Bytes → List Bytes → Bytes → Prop
  | close {s rest : Bytes} (mark : Symbol 0x29 s rest) : ValuesFrom s [] rest
  | more {s afterMark rest : Bytes} {items : List Item} (mark : Symbol comma s afterMark)
      (next : Items afterMark items rest) : ValuesFrom s (items.map Item.value) rest

/-- What a statement says in front of one of its values. -/
inductive Lead
  | select (table column : Bytes)
  | insert (table : Bytes) (before : List Bytes)

def Lead.query (value : Bytes) (after : List Bytes) : Lead → Query
  | .select table column => ⟨.select, some table, [], some ⟨column, value⟩⟩
  | .insert table before => ⟨.insert, some table, before ++ value :: after, none⟩

/-- The statement is read up to the cursor. -/
def Lead.Reads (s cursor : Bytes) : Lead → Prop
  | .select table column => ∃ afterSelect afterStar afterFrom afterTable afterWhere afterColumn,
      Keyword (ascii "select") s afterSelect ∧ Symbol 0x2a afterSelect afterStar ∧
      Keyword (ascii "from") afterStar afterFrom ∧ Ident afterFrom table afterTable ∧
      Keyword (ascii "where") afterTable afterWhere ∧ Ident afterWhere column afterColumn ∧
      Symbol 0x3d afterColumn cursor
  | .insert table before => ∃ afterInsert afterInto afterTable afterValues afterOpen,
      Keyword (ascii "insert") s afterInsert ∧ Keyword (ascii "into") afterInsert afterInto ∧
      Ident afterInto table afterTable ∧ Keyword (ascii "values") afterTable afterValues ∧
      Symbol 0x28 afterValues afterOpen ∧ ValuesUpTo afterOpen before cursor

/-- The statement ends behind the value, with the values `after` in between. -/
def Lead.Ends (rest : Bytes) (after : List Bytes) : Lead → Prop
  | .select _ _ => after = [] ∧ ∃ semicolon, End semicolon rest
  | .insert _ _ => ∃ closed semicolon, ValuesFrom rest after closed ∧ End semicolon closed

/-! ## Taking a statement apart at a value -/

theorem Value.length_lt {s value rest : Bytes} (h : Value s value rest) : rest.length < s.length := by
  obtain ⟨ws, text, rfl, -, htext⟩ := h
  have := List.length_pos_iff.mpr htext.ne_nil
  simp only [List.length_append]
  omega

theorem Symbol.length_lt {c : UInt8} {s rest : Bytes} (h : Symbol c s rest) : rest.length < s.length := by
  obtain ⟨ws, rfl, -⟩ := h
  simp only [List.length_append, List.length_cons]
  omega

theorem Items.length_lt {s rest : Bytes} {items : List Item} (h : Items s items rest) :
    ∀ item ∈ items, item.afterValue.length < s.length := by
  induction h with
  | last hvalue _ => simpa using hvalue.length_lt
  | more hvalue hmark _ ih =>
    have hless := hmark.length_lt.trans hvalue.length_lt
    exact List.forall_mem_cons.mpr ⟨hvalue.length_lt, fun item hitem => (ih item hitem).trans hless⟩

/-- The values of a list with another value in front of `post`. -/
def fillValues (post value : Bytes) (items : List Item) : List Bytes :=
  items.map fun item => if item.afterValue = post then value else item.value

theorem fillValues_of_lt {post : Bytes} {items : List Item}
    (h : ∀ item ∈ items, item.afterValue.length < post.length) (value : Bytes) :
    fillValues post value items = items.map Item.value := by
  refine List.map_congr_left fun item hitem => if_neg ?_
  rintro rfl
  exact Nat.lt_irrefl _ (h item hitem)

theorem Items.apart {s rest value post : Bytes} {items : List Item} (h : Items s items rest)
    (hspan : (value, post) ∈ items.map fun item => (item.value, item.afterValue)) :
    ∃ before cursor after, ValuesUpTo s before cursor ∧ Value cursor value post ∧
      ValuesFrom post after rest ∧ ∀ p, fillValues post p items = before ++ p :: after := by
  induction h with
  | last hvalue hclose =>
    obtain ⟨rfl, rfl⟩ : value = _ ∧ post = _ := by simpa using hspan
    exact ⟨[], _, [], .here, hvalue, .close hclose, fun p => by simp [fillValues]⟩
  | more hvalue hmark hitems ih =>
    rename_i v afterValue afterMark _ items
    rw [List.map_cons, List.mem_cons] at hspan
    rcases hspan with hhead | hspan
    · obtain ⟨rfl, rfl⟩ : value = _ ∧ post = _ := by simpa using hhead
      refine ⟨[], _, _, .here, hvalue, .more hmark hitems, fun p => ?_⟩
      have hless := fun item hitem => (hitems.length_lt item hitem).trans hmark.length_lt
      rw [List.nil_append, ← fillValues_of_lt hless p]
      simp [fillValues]
    · obtain ⟨before, cursor, after, hupTo, hvalue', hfrom, hfill⟩ := ih hspan
      refine ⟨v :: before, cursor, after, .next hvalue hmark hupTo, hvalue', hfrom, fun p => ?_⟩
      obtain ⟨item, hitem, hpost⟩ := List.mem_map.mp hspan
      have hother : afterValue ≠ post := by
        rintro rfl
        have := (hitems.length_lt item hitem).trans hmark.length_lt
        rw [(Prod.mk.inj hpost).2] at this
        exact Nat.lt_irrefl _ this
      rw [List.cons_append, ← hfill p]
      simp [fillValues, hother]

/-- Every value of a statement has something in front of it and something behind. -/
theorem Tree.Derives.apart {s value post : Bytes} {t : Tree} (h : t.Derives s)
    (hspan : (value, post) ∈ t.spans) :
    ∃ (lead : Lead) (cursor : Bytes) (after : List Bytes), lead.Reads s cursor ∧
      Value cursor value post ∧ lead.Ends post after ∧ ∀ p, t.fill post p = lead.query p after := by
  cases t with
  | select t =>
    obtain ⟨_, _, _, table, _, condition, semicolon⟩ := t
    obtain ⟨hselect, hstar, hfrom, htable, hcondition⟩ := h
    cases condition with
    | none => cases hspan
    | some w =>
      obtain ⟨⟨hwhere, hcolumn, hequals, hvalue⟩, hend⟩ := hcondition
      obtain ⟨rfl, rfl⟩ : value = _ ∧ post = _ := by simpa [Tree.spans] using hspan
      exact ⟨.select table w.column, w.afterEquals, [],
        ⟨_, _, _, _, _, _, hselect, hstar, hfrom, htable, hwhere, hcolumn, hequals⟩, hvalue,
        ⟨rfl, semicolon, hend⟩, fun p => by simp [Tree.fill, Lead.query]⟩
  | insert t =>
    obtain ⟨hinsert, hinto, htable, hvalues, hopen, hitems, hend⟩ := h
    obtain ⟨before, cursor, after, hupTo, hvalue, hfrom, hfill⟩ := hitems.apart hspan
    refine ⟨.insert t.table before, cursor, after,
      ⟨_, _, _, _, _, hinsert, hinto, htable, hvalues, hopen, hupTo⟩, hvalue, ⟨_, _, hfrom, hend⟩, ?_⟩
    intro p
    rw [Lead.query, ← hfill p]
    rfl

/-! ## Putting it together -/

theorem ValuesUpTo.items {s cursor value post rest : Bytes} {before after : List Bytes}
    (h : ValuesUpTo s before cursor) (hvalue : Value cursor value post)
    (hfrom : ValuesFrom post after rest) :
    ∃ items, Items s items rest ∧ items.map Item.value = before ++ value :: after := by
  induction h with
  | here =>
    cases hfrom with
    | close hclose => exact ⟨_, .last hvalue hclose, rfl⟩
    | more hmark hitems => exact ⟨_, .more hvalue hmark hitems, rfl⟩
  | next hfirst hmark _ ih =>
    obtain ⟨items, hitems, hvalues⟩ := ih hvalue
    exact ⟨_, .more hfirst hmark hitems, by rw [List.map_cons, hvalues]; rfl⟩

theorem Lead.Reads.accepts {lead : Lead} {s cursor value post : Bytes} {after : List Bytes}
    (h : lead.Reads s cursor) (hvalue : Value cursor value post) (hend : lead.Ends post after) :
    Accepts s (lead.query value after) := by
  cases lead with
  | select table column =>
    obtain ⟨_, _, _, _, _, _, hselect, hstar, hfrom, htable, hwhere, hcolumn, hequals⟩ := h
    obtain ⟨-, semicolon, hend⟩ := hend
    exact ⟨.select ⟨_, _, _, table, _, some ⟨_, column, _, _, value, post⟩, semicolon⟩,
      ⟨hselect, hstar, hfrom, htable, ⟨hwhere, hcolumn, hequals, hvalue⟩, hend⟩, rfl⟩
  | insert table before =>
    obtain ⟨_, _, _, _, _, hinsert, hinto, htable, hvalues, hopen, hupTo⟩ := h
    obtain ⟨closed, semicolon, hfrom, hend⟩ := hend
    obtain ⟨items, hitems, hall⟩ := hupTo.items hvalue hfrom
    refine ⟨.insert ⟨_, _, table, _, _, _, items, closed, semicolon⟩,
      ⟨hinsert, hinto, htable, hvalues, hopen, hitems, hend⟩, ?_⟩
    rw [Tree.query, hall]
    rfl

/-! ## Another text behind the same front -/

section Replace

variable {s front rest : Bytes}

theorem Keyword.replace {word : Bytes} (h : Keyword word s (front ++ rest)) (hne : front ≠ []) :
    ∃ front', front' ≠ [] ∧ s = front' ++ rest ∧
      ∀ rest', Keyword word (front' ++ rest') (front ++ rest') := by
  obtain ⟨ws, letters, rfl, hws, hletters, hstop⟩ := h
  obtain ⟨c, front, rfl⟩ := List.exists_cons_of_ne_nil hne
  refine ⟨ws ++ letters ++ c :: front, by simp, by simp, fun rest' => ?_⟩
  exact ⟨ws, letters, by simp, hws, hletters, hstop⟩

theorem Ident.replace {name : Bytes} (h : Ident s name (front ++ rest)) (hne : front ≠ []) :
    ∃ front', front' ≠ [] ∧ s = front' ++ rest ∧
      ∀ rest', Ident (front' ++ rest') name (front ++ rest') := by
  obtain ⟨ws, rfl, hws, hname, hall, hstop⟩ := h
  obtain ⟨c, front, rfl⟩ := List.exists_cons_of_ne_nil hne
  refine ⟨ws ++ name ++ c :: front, by simp, by simp, fun rest' => ?_⟩
  exact ⟨ws, by simp, hws, hname, hall, hstop⟩

theorem Symbol.replace {c : UInt8} (front : Bytes) (h : Symbol c s (front ++ rest)) :
    ∃ front', front' ≠ [] ∧ s = front' ++ rest ∧
      ∀ rest', Symbol c (front' ++ rest') (front ++ rest') := by
  obtain ⟨ws, rfl, hws⟩ := h
  exact ⟨ws ++ c :: front, by simp, by simp, fun rest' => ⟨ws, by simp, hws⟩⟩

theorem Value.replace {value : Bytes} (h : Value s value (front ++ rest)) :
    ∃ front', s = front' ++ rest ∧ ∀ rest', Value (front' ++ rest') value (front ++ rest') := by
  obtain ⟨ws, text, rfl, hws, htext⟩ := h
  exact ⟨ws ++ text ++ front, by simp, fun rest' => ⟨ws, text, by simp, hws, htext⟩⟩

theorem ValuesUpTo.replace {cursor : Bytes} {before : List Bytes} (h : ValuesUpTo s before cursor) :
    ∃ front, s = front ++ cursor ∧ ∀ cursor', ValuesUpTo (front ++ cursor') before cursor' := by
  induction h with
  | here => exact ⟨[], rfl, fun _ => .here⟩
  | next hvalue hmark _ ih =>
    obtain ⟨front, rfl, hrest⟩ := ih
    obtain ⟨front, -, rfl, hmark'⟩ := Symbol.replace _ hmark
    obtain ⟨front, rfl, hvalue'⟩ := hvalue.replace
    exact ⟨front, rfl, fun cursor' => .next (hvalue' cursor') (hmark' cursor') (hrest cursor')⟩

end Replace

theorem Lead.Reads.replace {lead : Lead} {s cursor : Bytes} (h : lead.Reads s cursor) :
    ∃ front, s = front ++ cursor ∧ ∀ cursor', lead.Reads (front ++ cursor') cursor' := by
  cases lead with
  | select table column =>
    obtain ⟨_, _, _, _, _, _, hselect, hstar, hfrom, htable, hwhere, hcolumn, hequals⟩ := h
    obtain ⟨front, hne, rfl, hequals'⟩ := Symbol.replace [] hequals
    obtain ⟨front, hne, rfl, hcolumn'⟩ := hcolumn.replace hne
    obtain ⟨front, hne, rfl, hwhere'⟩ := hwhere.replace hne
    obtain ⟨front, hne, rfl, htable'⟩ := htable.replace hne
    obtain ⟨front, hne, rfl, hfrom'⟩ := hfrom.replace hne
    obtain ⟨front, hne, rfl, hstar'⟩ := Symbol.replace _ hstar
    obtain ⟨front, hne, rfl, hselect'⟩ := hselect.replace hne
    exact ⟨front, rfl, fun cursor' => ⟨_, _, _, _, _, _, hselect' cursor', hstar' cursor', hfrom' cursor',
      htable' cursor', hwhere' cursor', hcolumn' cursor', hequals' cursor'⟩⟩
  | insert table before =>
    obtain ⟨_, _, _, _, _, hinsert, hinto, htable, hvalues, hopen, hupTo⟩ := h
    obtain ⟨front, rfl, hupTo'⟩ := hupTo.replace
    obtain ⟨front, hne, rfl, hopen'⟩ := Symbol.replace _ hopen
    obtain ⟨front, hne, rfl, hvalues'⟩ := hvalues.replace hne
    obtain ⟨front, hne, rfl, htable'⟩ := htable.replace hne
    obtain ⟨front, hne, rfl, hinto'⟩ := hinto.replace hne
    obtain ⟨front, hne, rfl, hinsert'⟩ := hinsert.replace hne
    exact ⟨front, rfl, fun cursor' => ⟨_, _, _, _, _, hinsert' cursor', hinto' cursor', htable' cursor',
      hvalues' cursor', hopen' cursor', hupTo' cursor'⟩⟩

/-! ## The value of another text -/

theorem ValuesUpTo.value {s cursor rest p : Bytes} {before after : List Bytes} {items : List Item}
    (hs : 0 ∉ s) (h : ValuesUpTo s before cursor) (hitems : Items s items rest)
    (hvalues : items.map Item.value = before ++ p :: after) : ∃ post, Value cursor p post := by
  induction h generalizing items with
  | here =>
    cases hitems with
    | last hvalue _ =>
      obtain ⟨rfl, -⟩ := List.cons.inj hvalues
      exact ⟨_, hvalue⟩
    | more hvalue _ _ =>
      obtain ⟨rfl, -⟩ := List.cons.inj hvalues
      exact ⟨_, hvalue⟩
  | next hvalue hmark _ ih =>
    cases hitems with
    | last _ _ => simp at hvalues
    | more hvalue' hmark' hitems =>
      obtain ⟨-, hrest⟩ := List.cons.inj hvalues
      obtain ⟨-, rfl⟩ := hvalue.unique hs (hmark.delimited rfl) hvalue' (hmark'.delimited rfl)
      obtain rfl := hmark.unique (by decide) rfl hmark'
      exact ih (hmark.nulFree (hvalue.nulFree hs)) hitems hrest

/-- A statement with the query of a front has the query's value behind this front. -/
theorem Lead.Reads.value {lead : Lead} {s cursor p : Bytes} {after : List Bytes} (hs : 0 ∉ s)
    (h : lead.Reads s cursor) (haccepts : Accepts s (lead.query p after)) :
    ∃ post, Value cursor p post := by
  obtain ⟨t, ht, hquery⟩ := haccepts
  cases lead with
  | select table column =>
    obtain ⟨_, _, _, _, _, _, hselect, hstar, hfrom, htable, hwhere, hcolumn, hequals⟩ := h
    cases t with
    | insert t => cases hquery
    | select t =>
      obtain ⟨_, _, _, _, _, condition, _⟩ := t
      obtain ⟨hselect', hstar', hfrom', htable', hcondition⟩ := ht
      dsimp only at hselect' hstar' hfrom' htable'
      cases condition with
      | none => cases hquery
      | some w =>
        obtain ⟨⟨hwhere', hcolumn', hequals', hvalue⟩, -⟩ := hcondition
        obtain rfl := hselect.unique (by decide) hselect'
        obtain rfl := hstar.unique (by decide) rfl hstar'
        obtain rfl := hfrom.unique (by decide) hfrom'
        obtain ⟨-, rfl⟩ := htable.unique htable'
        obtain rfl := hwhere.unique (by decide) hwhere'
        obtain ⟨-, rfl⟩ := hcolumn.unique hcolumn'
        obtain rfl := hequals.unique (by decide) rfl hequals'
        have hp : w.value = p := by
          simp only [Tree.query, Lead.query, Option.map_some, Query.mk.injEq, Option.some.injEq,
            Condition.mk.injEq] at hquery
          exact hquery.2.2.2.2
        exact ⟨w.afterValue, hp ▸ hvalue⟩
  | insert table before =>
    obtain ⟨_, _, _, _, _, hinsert, hinto, htable, hvalues, hopen, hupTo⟩ := h
    cases t with
    | select t => cases hquery
    | insert t =>
      obtain ⟨hinsert', hinto', htable', hvalues', hopen', hitems, -⟩ := ht
      have hnul := hopen.nulFree (hvalues.nulFree (htable.nulFree (hinto.nulFree (hinsert.nulFree hs))))
      obtain rfl := hinsert.unique (by decide) hinsert'
      obtain rfl := hinto.unique (by decide) hinto'
      obtain ⟨-, rfl⟩ := htable.unique htable'
      obtain rfl := hvalues.unique (by decide) hvalues'
      obtain rfl := hopen.unique (by decide) rfl hopen'
      have hall : t.items.map Item.value = before ++ p :: after := by
        simp only [Tree.query, Lead.query, Query.mk.injEq] at hquery
        exact hquery.2.2.1
      exact hupTo.value hnul hitems hall

end MiniSql.Query
