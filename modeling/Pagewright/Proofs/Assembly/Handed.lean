import Pagewright.Proofs.Assembly.Mute
import Pagewright.Proofs.Assembly.Layered
import Pagewright.Proofs.Assembly.LinkTag
import Pagewright.Proofs.Lowering.Doubled

/-! # Values that are handed on

A tag hands a value to its partial as it stands in the rewritten text (`partialFor_handing`), and
nothing is rendered on the way.  So a doubled at sign in a value is no single one for the partial: it
gets the raw block that the rewriting puts there (`doubled_handed`).

Main definitions: `handingTag`, `DataName`, `handed`. -/

namespace Pagewright.Assembly

open Text Directive Lowering Pagewright.Path

/-! ### The tag -/

/-- The tag of a partial that is given a value under a name. -/
def handingTag (p n v : Text) : Text := "<include src=\"" ++ p ++ "\" " ++ n ++ "=\"" ++ v ++ "\" />"

variable {p n v s : Text}

/-- A tag as what stands between its quotes. -/
theorem handingTag_split (p n v : Text) : handingTag p n v = "<include src=".toList ++
    '"' :: (p ++ '"' :: (' ' :: (n ++ ['=']) ++ '"' :: (v ++ '"' :: " />"))) := by
  have lead : "<include src=\"".toList = "<include src=".toList ++ ['"'] := rfl
  have path : "\" ".toList = ['"', ' '] := rfl
  have name : "=\"".toList = ['=', '"'] := rfl
  have trail : "\" />".toList = '"' :: " />".toList := rfl
  unfold handingTag
  rw [lead, path, name, trail]
  simp only [List.append_assoc, List.cons_append, List.nil_append]

theorem handingTag_eq (p n v : Text) :
    handingTag p n v = tagAlone (quotedAttributes [("src".toList, p), (n, v)]) := by
  have lead : "<include src=".toList = "<include".toList ++ (' ' :: ("src".toList ++ ['='])) := rfl
  have equals : "=\"".toList = ['=', '"'] := rfl
  have quote : "\"".toList = ['"'] := rfl
  have trail : " />".toList = " ".toList ++ ['/', '>'] := rfl
  rw [handingTag_split, lead, trail]
  unfold tagAlone tagOpening tagLead quotedAttributes quotedAttribute
  rw [List.flatMap_cons, List.flatMap_cons, List.flatMap_nil, equals, quote]
  simp only [List.append_assoc, List.cons_append, List.nil_append]

/-- At signs are replaced in the value only. -/
theorem replaceAll_handingTag (new : Text) (hp : '@' ∉ p) (hn : '@' ∉ n) (v : Text) :
    replaceAll "@" new (handingTag p n v) = handingTag p n (replaceAll "@" new v) := by
  have bare : ∀ {t : Text}, '@' ∉ t → replaceAll "@" new t = t := fun h =>
    replaceAll_eq_self new at_ne_nil (not_infix_of_not_mem h)
  have name : '@' ∉ ' ' :: (n ++ ['=']) := not_mem_append (t := [' ']) (by decide)
    (not_mem_append hn (by decide))
  have lead : replaceAll "@" new "<include src=" = "<include src=".toList := bare (by decide)
  have trail : replaceAll "@" new " />" = " />".toList := bare (by decide)
  have parted := fun t r => @replaceAll_parted _ at_ne_nil new '"' (by decide) t r
  rw [handingTag_split, parted, parted, parted, parted, lead, bare hp, bare name, trail,
    ← handingTag_split]

/-- **A stretch without quotes stands in the value**, if it holds a sign that neither paths nor names
are written with. -/
theorem infix_of_infix_handingTag (hp : IsName p) (hn : AttributeName n) {stretch : Text} {c : Char}
    (sign : c ∈ "@\x7b".toList) (hc : c ∈ stretch) (unquoted : '"' ∉ stretch)
    (h : stretch <:+: handingTag p n v) : stretch <:+: v := by
  have signs : ∀ c ∈ "@\x7b".toList, isNameChar c = false ∧ isAttributeChar c = false ∧
      c ∉ "<include src=".toList ∧ c ∉ " />".toList ∧ c ≠ ' ' ∧ c ≠ '=' := forall_mem_text (by decide)
  obtain ⟨path, name, lead, trail, blank, equals⟩ := signs c sign
  have absent : ∀ {t : Text}, c ∉ t → ¬ stretch <:+: t := fun ht hi => ht (hi.subset hc)
  have middle : c ∉ ' ' :: (n ++ ['=']) := by
    simp only [List.mem_cons, List.mem_append, List.not_mem_nil, or_false, not_or]
    exact ⟨blank, hn.not_mem name, equals⟩
  rw [handingTag_split] at h
  have h := (infix_parted unquoted h).resolve_left (absent lead)
  have h := (infix_parted unquoted h).resolve_left (absent (hp.not_mem path))
  have h := (infix_parted unquoted h).resolve_left (absent middle)
  exact (infix_parted unquoted h).resolve_right (absent trail)

/-- What may be escaped in the value may be escaped in the tag. -/
theorem escapable_handingTag (hp : IsName p) (hn : AttributeName n) (h : Escapable v) :
    Escapable (handingTag p n v) where
  uncommented := fun hm => h.uncommented (infix_of_infix_handingTag hp hn
    (by decide : '\x7b' ∈ "@\x7b".toList) (by decide) (by decide) hm)
  untagged := (untagged_iff lettered_raw).mpr fun g hg => by
    have unquoted : '"' ∉ g.shown := fun hm => (List.mem_cons.mp hm).elim (by decide)
      (g.not_mem_inside lettered_raw (by decide) (by decide) (by decide))
    exact (untagged_iff lettered_raw).mp h.untagged g (infix_of_infix_handingTag hp hn
      (by decide : '\x7b' ∈ "@\x7b".toList) List.mem_cons_self unquoted hg)
  visible := by
    have path := hp.not_mem (by decide : isNameChar '\x00' = false)
    have name := hn.not_mem (by decide : isAttributeChar '\x00' = false)
    unfold handingTag
    simp only [List.mem_append, not_or]
    exact ⟨⟨⟨⟨⟨⟨by decide, path⟩, by decide⟩, name⟩, by decide⟩, h.visible⟩, by decide⟩
  unguarded := fun digits given decimal hm => by
    have unquoted : '"' ∉ "@hk:guard:".toList ++ (digits ++ ['@']) :=
      not_mem_append (by decide) (not_mem_append
        (fun hq => Bool.false_ne_true ((by decide : isDecimal '"' = false).symm.trans (decimal _ hq)))
        (by decide))
    exact h.unguarded digits given decimal (infix_of_infix_handingTag hp hn
      (by decide : '@' ∈ "@\x7b".toList) (List.mem_append_left _ (by decide)) unquoted hm)

/-- **Doubled at signs in the value** become raw blocks in the value. -/
theorem transform_handingTag (ds : Delimiters) (hp : IsName p) (hn : AttributeName n)
    (h : Escapable s) :
    transform ds (handingTag p n (doubled s)) = .ok (handingTag p n (shielded s)) := by
  have path : '@' ∉ p := hp.not_mem (by decide)
  have name : '@' ∉ n := hn.not_mem (by decide)
  have whole := transform_doubled ds (escapable_handingTag hp hn h)
  rwa [doubled, replaceAll_handingTag _ path name, shielded, replaceAll_handingTag _ path name]
    at whole

/-! ### What is handed on -/

/-- The tag as it is read back. -/
def handing (p n v : Text) : IncludeTag :=
  ⟨0, (handingTag p n v).length, quotedAttributes [("src".toList, p), (n, v)], none⟩

/-- The name of an attribute that is data for the partial. -/
structure DataName (n : Text) : Prop extends AttributeName n where
  other : n ≠ "src".toList
  unreserved : ¬ reservedLead <+: n

theorem sound_handing (hp : IsName p) (hn : DataName n) (hv : '"' ∉ v) :
    ∀ a ∈ [("src".toList, p), (n, v)], AttributeName a.1 ∧ '"' ∉ a.2 := by
  refine List.forall_mem_cons.mpr ⟨⟨attributeName_source, hp.not_mem (by decide)⟩, ?_⟩
  exact List.forall_mem_singleton.mpr ⟨hn.toAttributeName, hv⟩

theorem includeTags_handingTag (hp : IsName p) (hn : DataName n) (hv : '"' ∉ v) :
    includeTags (handingTag p n v) = [handing p n v] := by
  rw [handing, handingTag_eq]
  exact includeTags_tagOpening (opens_quotedAttributes (sound_handing hp hn hv)) (selfClosed?_slash _)

theorem parseAttributes_handing (hp : IsName p) (hn : DataName n) (hv : '"' ∉ v) :
    parseAttributes (handing p n v).attributes = [("src".toList, p), (n, v)] := by
  have path : Html.unescape p = p := by
    conv_lhs => rw [← escape_name hp]
    exact Html.unescape_escape p
  have own : ¬ (n = "src".toList ∨ reservedLead.isPrefixOf n = true) := fun e =>
    e.elim hn.other fun lead => hn.unreserved (List.isPrefixOf_iff_prefix.mp lead)
  have distinct : ([("src".toList, p), (n, v)].map Prod.fst).Nodup :=
    List.nodup_cons.mpr ⟨fun hm => hn.other (List.mem_singleton.mp hm).symm, List.nodup_singleton n⟩
  have source : readAttribute ("src".toList, p) = ("src".toList, p) := by
    rw [readAttribute, if_pos (Or.inl rfl), path]
  have value : readAttribute (n, v) = (n, v) := by
    rw [readAttribute, if_neg own]
  rw [handing, parseAttributes_quoted (sound_handing hp hn hv) distinct, List.map_cons, List.map_cons,
    List.map_nil, source, value]

/-- An attribute that is no expression gives its value. -/
theorem attributeValue_plain {site : Site} (data : List (Value × Value)) (page n : Text)
    (h : expression? site.delimiters v = none) :
    attributeValue site data page (n, v) = pure (.str n, .str v) := by
  unfold attributeValue
  simp only [h]

/-- The data of a partial that is given a value under a name. -/
def handed (site : Site) (data : List (Value × Value)) (n v : Text) : List (Value × Value) :=
  layered [site.data, data, [(.str n, .str v)]]

theorem binds_handed {site : Site} {data : List (Value × Value)} (hs : Template.Named site.data)
    (hd : Template.Named data) (n v : Text) : Binds n (.str v) (handed site data n v) := by
  have below : ∀ layer ∈ [site.data, data], Template.Named layer :=
    List.forall_mem_cons.mpr ⟨hs, List.forall_mem_singleton.mpr hd⟩
  exact (binds_single n (.str v)).onto below

/-- **A partial is given the value as it stands in the tag.** -/
theorem partialFor_handing (site : Site) (data : List (Value × Value)) (page : Text) (hp : IsName p)
    (hn : DataName n) (hv : '"' ∉ v) (plain : expression? site.delimiters v = none) (d : Desk) :
    (partialFor site data page (handing p n v)).outcome d =
      (do let some target ← Work.ofExcept (locate site.library p [] false) | return none
          let text ← Work.ofProblem (site.library.read target "include")
          return some ⟨target, fillSlots text [], handed site data n v⟩ :
        Work (Option Partial)).outcome d := by
  have unreserved : ∀ rest, ¬ n = reservedLead ++ rest := fun rest e => hn.unreserved ⟨rest, e.symm⟩
  have absent : ∀ rest, [("src".toList, p), (n, v)].lookup (reservedLead ++ rest) = none := by
    intro rest
    have other : reservedLead ++ rest ≠ "src".toList := fun e =>
      absurd (List.cons.inj e).1 (by decide)
    have apart : reservedLead ++ rest ≠ n := fun e => unreserved rest e.symm
    rw [Named.lookup_cons_eq, if_neg other, Named.lookup_cons_eq, if_neg apart]
    rfl
  have source : strip (([("src".toList, p), (n, v)].lookup "src".toList).getD []) = p :=
    strip_solid hp.not_space
  have own : ownAttributes [("src".toList, p), (n, v)] = [(n, v)] := by
    have other : decide (n ≠ "src".toList) = true := decide_eq_true hn.other
    have free : reservedLead.isPrefixOf n = false := Bool.eq_false_iff.mpr fun lead =>
      hn.unreserved (List.isPrefixOf_iff_prefix.mp lead)
    have given : (decide (n ≠ "src".toList) && !reservedLead.isPrefixOf n) = true := by
      rw [other, free]
      rfl
    unfold ownAttributes
    rw [List.filter_cons_of_neg (by simp)]
    exact List.filter_eq_self.mpr (List.forall_mem_singleton.mpr given)
  have all := partialFor_unconditional site data page (parseAttributes_handing hp hn hv)
    ⟨absent _, absent _, absent _⟩ source hp.canonical.ne_nil d
  have first := absent "first"
  have optional := absent "optional"
  rw [own, first, optional] at all
  simp only [List.mapM_cons, List.mapM_nil, attributeValue_plain data page n plain, pure_bind] at all
  exact all

/-- **A doubled at sign in an attribute is no at sign for the partial.**  The value is rewritten where
it stands and handed on as it is: under its name the partial gets the value with every at sign in a
raw block, which is the value itself only if there is no at sign in it. -/
theorem doubled_handed (site : Site) (hp : IsName p) (hn : DataName n) (hv : '"' ∉ s)
    (escapable : Escapable s) (plain : expression? site.delimiters (shielded s) = none) :
    ∃ tag, transform site.delimiters (handingTag p n (doubled s)) =
        .ok (handingTag p n (shielded s)) ∧
      includeTags (handingTag p n (shielded s)) = [tag] ∧
      (∀ data page d, (partialFor site data page tag).outcome d =
        (do let some target ← Work.ofExcept (locate site.library p [] false) | return none
            let text ← Work.ofProblem (site.library.read target "include")
            return some ⟨target, fillSlots text [], handed site data n (shielded s)⟩ :
          Work (Option Partial)).outcome d) ∧
      (∀ data, Template.Named site.data → Template.Named data →
        Binds n (.str (shielded s)) (handed site data n (shielded s))) ∧
      (shielded s = s ↔ '@' ∉ s) := by
  have unquoted : '"' ∉ shielded s := fun hm => (mem_replaceAll hm).elim (by decide) hv
  refine ⟨handing p n (shielded s), transform_handingTag _ hp hn.toAttributeName escapable,
    includeTags_handingTag hp hn unquoted, fun data page d => ?_, fun data hs hd => ?_,
    shielded_eq_self_iff⟩
  · exact partialFor_handing site data page hp hn unquoted plain d
  · exact binds_handed hs hd n (shielded s)

/-- A site with a partial that prints a name. -/
def greeter : Site := { library := .shelf ⟨[("p", "\x7b\x7b name \x7d\x7d")]⟩ }

/-- The partial gets an address with markup in it. -/
theorem doubled_handed_address :
    IsName "p" ∧ DataName "name" ∧ '"' ∉ "a@b".toList ∧ Escapable "a@b" ∧
      expression? greeter.delimiters (shielded "a@b") = none ∧
      handingTag "p" "name" (doubled "a@b") = "<include src=\"p\" name=\"a@@b\" />".toList ∧
      ∃ lowered tag,
        transform greeter.delimiters (handingTag "p" "name" (doubled "a@b")) = .ok lowered ∧
        includeTags lowered = [tag] ∧ ∀ page d, (partialFor greeter [] page tag).outcome d =
          (.ok (some ⟨"p", "\x7b\x7b name \x7d\x7d",
            [(.str "name", .str "a\x7b% raw %\x7d@\x7b% endraw %\x7db")]⟩), d) := by
  have path : IsName "p" := by decide
  have name : DataName "name" :=
    ⟨⟨⟨'n', rfl, by decide⟩, forall_mem_text (by decide)⟩, by decide, by decide⟩
  have unquoted : '"' ∉ "a@b".toList := by decide
  have escapable : Escapable "a@b" :=
    ⟨by decide, untagged_of_unopened lettered_raw (by decide), by decide,
      unguarded_of_absent (by decide)⟩
  have plain : expression? greeter.delimiters (shielded "a@b") = none := by decide
  obtain ⟨tag, lowered, only, asked, -, -⟩ :=
    doubled_handed greeter path name unquoted escapable plain
  refine ⟨path, name, unquoted, escapable, plain, by decide, _, tag, lowered, only, fun page d => ?_⟩
  exact (asked [] page d).trans rfl

end Pagewright.Assembly
