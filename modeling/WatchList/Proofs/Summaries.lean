import WatchList.Execution
import WatchList.Proofs.Titles
/-!
# What a summary shows

A summary is the sentences of a report, one for each list that is not empty.

* It begins with the label of its first sentence (`Report.label_render`), so it is never one of the two texts for runs
  that tried nothing.
* Every error stands in it as it was reported (`Report.infix_render`).
* It has a quote in it only if something that is reported has one (`Report.free_render`).
-/
namespace WatchList
namespace Text

theorem prefix_joined (sep w : Text) : ∀ ws : List Text, w <+: joined sep (w :: ws)
  | [] => List.prefix_rfl
  | v :: ws => by
    rw [joined, List.append_assoc]
    · exact List.prefix_append w _
    · simp

theorem infix_joined (sep : Text) {w : Text} : ∀ {ws : List Text}, w ∈ ws → w <:+: joined sep ws
  | [v], h => by
    obtain rfl := List.mem_singleton.1 h
    exact List.infix_rfl
  | v :: u :: ws, h => by
    rcases List.mem_cons.1 h with rfl | h
    · exact (prefix_joined sep w (u :: ws)).isInfix
    · exact (infix_joined sep h).trans (List.suffix_append (v ++ sep) _).isInfix

theorem free_joined {sep : Text} (hsep : ∀ c ∈ sep, isQuote c = false) {ws : List Text}
    (h : ∀ w ∈ ws, ∀ c ∈ w, isQuote c = false) : ∀ c ∈ joined sep ws, isQuote c = false := by
  intro c hc
  rcases mem_joined hc with hc | ⟨w, hw, hc⟩
  · exact hsep c hc
  · exact h w hw c hc

end Text

namespace Report

def labels : List Text := ["Added", "Removed", "Status changes", "Errors"].map String.toList

/-- The sentences of a summary, in order. -/
def sentences (r : Report) : List Text :=
  sentence "Added".toList r.added ++ sentence "Removed".toList r.removed ++
    sentence "Status changes".toList r.statusChanges ++ sentence "Errors".toList r.errors

theorem render_of_sentences {r : Report} (h : r.sentences ≠ []) : r.render = Text.joined [' '] r.sentences := by
  unfold render
  exact if_neg (by simpa [sentences] using h)

theorem sentence_of_ne_nil (label : Text) {items : List Text} (h : items ≠ []) :
    sentence label items = [label ++ ": ".toList ++ Text.joined ", ".toList items ++ ".".toList] :=
  if_neg (by simpa using h)

theorem mem_sentence {label s : Text} {items : List Text} (h : s ∈ sentence label items) :
    s = label ++ ": ".toList ++ Text.joined ", ".toList items ++ ".".toList := by
  by_cases hi : items = []
  · simp [sentence, hi] at h
  · rw [sentence_of_ne_nil label hi] at h
    exact List.mem_singleton.1 h

/-- A sentence lists one of the four kinds of outcome under its label. -/
theorem mem_sentences {r : Report} {s : Text} (h : s ∈ r.sentences) :
    ∃ label ∈ labels, ∃ items, s = label ++ ": ".toList ++ Text.joined ", ".toList items ++ ".".toList ∧
      ∀ t ∈ items, t ∈ r.added ++ r.removed ++ r.statusChanges ++ r.errors := by
  simp only [sentences, List.mem_append] at h
  rcases h with ((h | h) | h) | h
  · exact ⟨_, by simp [labels], r.added, mem_sentence h, fun t ht => by simp [ht]⟩
  · exact ⟨_, by simp [labels], r.removed, mem_sentence h, fun t ht => by simp [ht]⟩
  · exact ⟨_, by simp [labels], r.statusChanges, mem_sentence h, fun t ht => by simp [ht]⟩
  · exact ⟨_, by simp [labels], r.errors, mem_sentence h, fun t ht => by simp [ht]⟩

theorem sentences_ne_nil {r : Report} (h : r.isEmpty = false) : r.sentences ≠ [] := by
  intro hnil
  have hempty : ∀ {label : Text} {items : List Text}, sentence label items = [] → items = [] := by
    intro label items hs
    by_cases hi : items = []
    · exact hi
    · rw [sentence_of_ne_nil label hi] at hs
      cases hs
  simp only [sentences, List.append_eq_nil_iff] at hnil
  obtain ⟨⟨⟨hadded, hremoved⟩, hchanges⟩, herrors⟩ := hnil
  simp [isEmpty, hempty hadded, hempty hremoved, hempty hchanges, hempty herrors] at h

/-- **The summary of a report that is not empty begins with a label.** -/
theorem label_render {r : Report} (h : r.isEmpty = false) : ∃ label ∈ labels, label <+: r.render := by
  have hne := sentences_ne_nil h
  rw [render_of_sentences hne]
  obtain ⟨s, ss, hs⟩ := List.exists_cons_of_ne_nil hne
  obtain ⟨label, hlabel, items, rfl, -⟩ := mem_sentences (r := r) (s := s) (by simp [hs])
  rw [hs]
  refine ⟨label, hlabel, List.IsPrefix.trans ?_ (Text.prefix_joined [' '] _ ss)⟩
  simp only [List.append_assoc]
  exact List.prefix_append label _

/-- The two texts for runs that tried nothing. -/
def fixed : List Text := [nothingToDo, nothingRecognized]

theorem render_not_mem_fixed {r : Report} (h : r.isEmpty = false) : r.render ∉ fixed := by
  have hunlabelled : ∀ m ∈ fixed, ∀ label ∈ labels, ¬ label <+: m := by decide
  obtain ⟨label, hlabel, hrender⟩ := label_render h
  exact fun hm => hunlabelled _ hm label hlabel hrender

/-- **Every error stands in the summary.** -/
theorem infix_render {r : Report} {m : Text} (h : m ∈ r.errors) : m <:+: r.render := by
  have hitems : r.errors ≠ [] := List.ne_nil_of_mem h
  have hsentence : "Errors".toList ++ ": ".toList ++ Text.joined ", ".toList r.errors ++ ".".toList ∈ r.sentences := by
    rw [sentences, sentence_of_ne_nil _ hitems]
    simp
  have hlist : Text.joined ", ".toList r.errors <:+:
      "Errors".toList ++ ": ".toList ++ Text.joined ", ".toList r.errors ++ ".".toList := List.infix_append _ _ _
  rw [render_of_sentences (List.ne_nil_of_mem hsentence)]
  exact ((Text.infix_joined _ h).trans hlist).trans (Text.infix_joined _ hsentence)

/-- **A summary has no quote in it if nothing that is reported has one.** -/
theorem free_render {r : Report}
    (h : ∀ t ∈ r.added ++ r.removed ++ r.statusChanges ++ r.errors, ∀ c ∈ t, isQuote c = false) :
    ∀ c ∈ r.render, isQuote c = false := by
  by_cases hs : r.sentences = []
  · have hrender : r.render = nothingRecognized := by
      unfold render
      exact if_pos (by simpa [sentences] using hs)
    rw [hrender]
    exact Quote.free_of_any (by decide)
  · rw [render_of_sentences hs]
    refine Text.free_joined (Quote.free_of_any (by decide)) fun s hmem => ?_
    obtain ⟨label, hlabel, items, rfl, hitems⟩ := mem_sentences hmem
    have hlabels : ∀ label ∈ labels, label.any isQuote = false := by decide
    have hjoined : ∀ c ∈ Text.joined ", ".toList items, isQuote c = false :=
      Text.free_joined (Quote.free_of_any (by decide)) fun t ht => h t (hitems t ht)
    simp only [List.forall_mem_append]
    exact ⟨⟨⟨Quote.free_of_any (hlabels label hlabel), Quote.free_of_any (by decide)⟩, hjoined⟩,
      Quote.free_of_any (by decide)⟩

end Report
end WatchList
