import Mustache.Node.Equality
import Mustache.Proofs.Render.Written
import Mustache.Proofs.Text.Html
import Mustache.Proofs.Text.Lines

/-! Output for HTML. Where the text of the templates is plain and every variable is escaped, each
piece that is written is safe inside of HTML, and so is the page that they make. -/
namespace Mustache
open Text (HtmlSafe Plain)

/-- A piece that leaves a safe page safe. -/
def Write.Safe : Write → Prop
  | .openLine => True
  | .text indent words => Plain indent.toList ∧ Plain words.toList
  | .value indent _ written => Plain indent.toList ∧ HtmlSafe written.toList

namespace Page
variable {p : Page} {indent : String}

theorem safe_opened (h : HtmlSafe p.text.toList) (plain : Plain indent.toList) :
    HtmlSafe (p.opened indent).toList := by
  unfold opened
  split
  · rw [String.toList_append]
    exact h.append (.of_plain plain)
  · exact h

theorem safe_foldl_putLine {lines : List (List Char)} (h : HtmlSafe p.text.toList)
    (plain : Plain indent.toList) (text : ∀ line ∈ lines, Plain line) :
    HtmlSafe (lines.foldl (putLine indent) p).text.toList := by
  induction lines generalizing p with
  | nil => exact h
  | cons line rest ih =>
    obtain ⟨first, others⟩ := List.forall_mem_cons.1 text
    apply ih ?_ others
    change HtmlSafe (p.opened indent ++ String.ofList line).toList
    rw [String.toList_append, String.toList_ofList]
    exact (safe_opened h plain).append (.of_plain first)

theorem safe_put {write : Write} (h : HtmlSafe p.text.toList) (safe : write.Safe) :
    HtmlSafe (p.put write).text.toList := by
  cases write with
  | openLine => exact h
  | text indent words =>
    obtain ⟨margin, plain⟩ := safe
    simp only [put]
    split
    · rw [String.toList_append]
      exact h.append (.of_plain plain)
    · apply safe_foldl_putLine h margin
      exact fun line mem c inside => plain c (Text.mem_of_mem_lines mem inside)
  | value indent value written =>
    obtain ⟨margin, escaped⟩ := safe
    simp only [put]
    split
    · exact h
    · rw [String.toList_append]
      exact (safe_opened h margin).append escaped

end Page

theorem safe_layout {writes : List Write} (safe : ∀ write ∈ writes, write.Safe) :
    HtmlSafe (layout writes).text.toList := by
  induction writes with
  | nil => exact .of_plain nofun
  | cons write writes ih =>
    obtain ⟨first, others⟩ := List.forall_mem_cons.1 safe
    exact Page.safe_put (ih others) first

theorem Text.plain_of_blank {cs : List Char} (h : cs.all isBlank) : Plain cs := by
  intro c mem reserved
  have blank : isBlank c = true := List.all_eq_true.1 h c mem
  simp only [List.mem_cons, List.not_mem_nil, or_false] at reserved
  rcases reserved with rfl | rfl | rfl | rfl | rfl <;> exact absurd blank (by decide)

/-- Every piece that a render writes is safe. -/
theorem upholds_safe {loader : Loader} {root : List Node}
    (blank : ∀ i, loader.Supplies root (.inclusion i) → i.indent.toList.all Text.isBlank)
    (escaped : ∀ name, ¬ loader.Supplies root (.interpolation name false))
    (plain : ∀ text, loader.Supplies root (.text text) → Plain text.toList) :
    Render.Upholds loader root Value.LambdaFree (fun indent => Plain indent.toList)
      fun _ writes => ∀ write ∈ writes, write.Safe where
  text margin supplied before := List.forall_mem_cons.2 ⟨⟨margin, plain _ supplied⟩, before⟩
  value {i name text written x writes} margin supplied _ _ before := by
    cases written with
    | false => exact absurd supplied (escaped name)
    | true => exact List.forall_mem_cons.2 ⟨⟨margin, .escapeHtml text⟩, before⟩
  opened _ _ _ before := List.forall_mem_cons.2 ⟨trivial, before⟩
  behind inside := inside
  inside {i inner} margin supplied := by
    rw [String.toList_append]
    exact margin.append (Text.plain_of_blank (blank inner supplied))

/-- Escaped output is safe inside of HTML: if no unescaped variable can be reached from a parsed
template, and the text of all that can be is plain, then data without lambdas bring in no reserved
character, whatever the settings and wherever the partials come from. -/
theorem Template.render_safe {σ : Type} (setup : Setup σ) (t : Template) (data : Value) (host : σ)
    (parsed : t.Parsed) (loads : ∀ name u, setup.loader name = some u → u.Parsed)
    (escaped : ∀ name, ¬ setup.loader.Supplies t.nodes (.interpolation name false))
    (plain : ∀ text, setup.loader.Supplies t.nodes (.text text) → Plain text.toList)
    (free : data.LambdaFree) {text : String} (ok : (t.render setup data host).result = .ok text) :
    HtmlSafe text.toList := by
  have upholds := upholds_safe (fun _ supplied => supplied.blank parsed loads) escaped plain
  obtain ⟨after, ran, rfl⟩ := Renderer.run_eq_ok (r := .fresh setup data t.name host) ok
  have safe := Renderer.upholds_accept upholds Value.closed_lambdaFree free t.name host nofun nofun
  rw [Renderer.state_accept, ran] at safe
  exact safe_layout safe

/-- A list of guests, each on an indented line. -/
def invitation : String :=
  "\x7b\x7b#guests\x7d\x7d\n  \x7b\x7b>guest\x7d\x7d\n\x7b\x7b/guests\x7d\x7d\n"

def invitationNodes : List Node :=
  [.sect ⟨"guests", false, ⟨invitation, 12, 25, .standard⟩, [.inclusion ⟨"guest", "  ", none⟩]⟩]

def guest : Template :=
  ⟨some "guest", "- \x7b\x7bname\x7d\x7d;\n", [.text "- ", .interpolation "name" true, .text ";\n"]⟩

theorem eq_guest {name : String} {u : Template}
    (found : Catalog.load [("guest", guest)] name = some u) : u = guest := by
  obtain ⟨-, rfl⟩ : "guest" = name ∧ guest = u := by
    simpa [Catalog.load, Entries.get?] using found
  rfl

/-- A node that writes nothing reserved, and that settles no partial. -/
def Node.Clear : Node → Prop
  | .text words => Plain words.toList
  | .interpolation _ escaped => escaped = true
  | .inclusion i | .parent i _ => i.target = none
  | .sect _ | .block _ => True

theorem guest_clear : Node.Everywhere Node.Clear guest.nodes := by
  simp only [guest, Node.everywhere_cons, Node.everywhere_nil, Node.parts, Node.Clear, and_true]
  decide

theorem invitation_clear {n : Node}
    (h : (Catalog.load [("guest", guest)]).Supplies invitationNodes n) : n.Clear := by
  have top : Node.Everywhere Node.Clear invitationNodes := by
    simp [invitationNodes, Node.everywhere_cons, Node.everywhere_nil, Node.parts, Node.Clear]
  refine h.everywhere (p := Node.Clear) id (fun {i u} here target => ?_) top n
    (.top (List.mem_singleton_self n))
  have unsettled : i.target = none := here
  rw [Loader.target?, unsettled] at target
  rw [eq_guest target]
  exact guest_clear

theorem Template.render_invitation :
    let setup : Setup ScriptedState :=
      ⟨.standard, Catalog.load [("guest", guest)], scriptedHost [] false⟩
    let data := Value.map [("guests", .list [.map [("name", .str "Q&A <b>")]])]
    let rendering := Template.render ⟨none, invitation, invitationNodes⟩ setup data .start
    rendering.result = .ok "  - Q&amp;A &lt;b&gt;;\n" ∧
      HtmlSafe "  - Q&amp;A &lt;b&gt;;\n".toList := by
  intro setup data rendering
  have read : Template.parse invitation = .ok ⟨none, invitation, invitationNodes⟩ := by
    decide +kernel
  have read_guest : Template.parse guest.source = .ok ⟨none, guest.source, guest.nodes⟩ := by
    decide +kernel
  have loads (name : String) (u : Template) (found : setup.loader name = some u) : u.Parsed := by
    rw [eq_guest found]
    exact ⟨_, _, _, read_guest, rfl⟩
  have escaped (name : String) :
      ¬ setup.loader.Supplies invitationNodes (.interpolation name false) :=
    fun supplied => Bool.noConfusion (invitation_clear supplied)
  have free : data.LambdaFree := by
    simp [data, Value.LambdaFree, Value.LambdaFreeEntries, Value.LambdaFreeItems]
  have ok : rendering.result = .ok "  - Q&amp;A &lt;b&gt;;\n" := by decide +kernel
  exact ⟨ok, Template.render_safe setup _ data .start ⟨_, _, _, read, rfl⟩ loads escaped
    (fun _ supplied => invitation_clear supplied) free ok⟩

end Mustache
