import Paddock.Text.Glyph

/-!
# The theme

Styles that go by the name of what they show. A theme gives each name a definition in words; a name
that stands for the plain style needs none.
-/

namespace Paddock

set_option autoImplicit false

abbrev Theme := List (String × String)

namespace Theme

/-- The definition that a name stands for, or else the name itself. Names count in their case and
without any trimming. -/
def define (theme : Theme) (name : Text) : Text :=
  match theme.find? fun entry => Text.ofString entry.1 == name with
  | some entry => Text.ofString entry.2
  | none => name

def standard : Theme :=
  [("reset", "default on default"), ("strong", "bold"), ("code", "bold reverse"),
    ("emphasize", "italic"),
    ("inspect.attr", "italic yellow"), ("inspect.attr.dunder", "dim italic yellow"),
    ("inspect.callable", "bold red"), ("inspect.async_def", "italic bright_cyan"),
    ("inspect.def", "italic bright_cyan"), ("inspect.class", "italic bright_cyan"),
    ("inspect.error", "bold red"), ("inspect.help", "cyan"), ("inspect.doc", "dim"),
    ("inspect.value.border", "green"),
    ("live.ellipsis", "bold red"),
    ("layout.tree.row", "red"), ("layout.tree.column", "blue"),
    ("logging.keyword", "bold yellow"), ("logging.level.notset", "dim"),
    ("logging.level.debug", "green"), ("logging.level.info", "blue"),
    ("logging.level.warning", "yellow"), ("logging.level.error", "bold red"),
    ("logging.level.critical", "bold reverse red"),
    ("log.time", "dim cyan"), ("log.path", "dim"),
    ("repr.ellipsis", "yellow"), ("repr.indent", "dim green"), ("repr.error", "bold red"),
    ("repr.str", "green"), ("repr.brace", "bold"), ("repr.comma", "bold"),
    ("repr.ipv4", "bold bright_green"), ("repr.ipv6", "bold bright_green"),
    ("repr.eui48", "bold bright_green"), ("repr.eui64", "bold bright_green"),
    ("repr.tag_start", "bold"), ("repr.tag_name", "bold bright_magenta"),
    ("repr.tag_contents", "default"), ("repr.tag_end", "bold"), ("repr.attrib_name", "yellow"),
    ("repr.attrib_equal", "bold"), ("repr.attrib_value", "magenta"), ("repr.number", "bold cyan"),
    ("repr.number_complex", "bold cyan"), ("repr.bool_true", "italic bright_green"),
    ("repr.bool_false", "italic bright_red"), ("repr.none", "italic magenta"),
    ("repr.url", "underline bright_blue"), ("repr.uuid", "bright_yellow"),
    ("repr.call", "bold magenta"), ("repr.path", "magenta"), ("repr.filename", "bright_magenta"),
    ("rule.line", "bright_green"),
    ("json.brace", "bold"), ("json.bool_true", "italic bright_green"),
    ("json.bool_false", "italic bright_red"), ("json.null", "italic magenta"),
    ("json.number", "bold cyan"), ("json.str", "green"), ("json.key", "bold blue"),
    ("prompt.choices", "bold magenta"), ("prompt.default", "bold cyan"), ("prompt.invalid", "red"),
    ("prompt.invalid.choice", "red"),
    ("scope.border", "blue"), ("scope.key", "italic yellow"),
    ("scope.key.special", "dim italic yellow"), ("scope.equals", "red"),
    ("table.header", "bold"), ("table.footer", "bold"), ("table.title", "italic"),
    ("table.caption", "dim italic"),
    ("traceback.error", "italic red"), ("traceback.border.syntax_error", "bright_red"),
    ("traceback.border", "red"), ("traceback.title", "bold red"),
    ("traceback.exc_type", "bold bright_red"), ("traceback.offset", "bold bright_red"),
    ("traceback.error_range", "bold underline"), ("traceback.note", "bold green"),
    ("traceback.group.border", "magenta"),
    ("bar.back", "grey23"), ("bar.complete", "rgb(249,38,114)"),
    ("bar.finished", "rgb(114,156,31)"), ("bar.pulse", "rgb(249,38,114)"),
    ("progress.filesize", "green"), ("progress.filesize.total", "green"),
    ("progress.download", "green"), ("progress.elapsed", "yellow"),
    ("progress.percentage", "magenta"), ("progress.remaining", "cyan"),
    ("progress.data.speed", "red"), ("progress.spinner", "green"), ("status.spinner", "green"),
    ("markdown.em", "italic"), ("markdown.emph", "italic"), ("markdown.strong", "bold"),
    ("markdown.code", "bold cyan on black"), ("markdown.code_block", "cyan on black"),
    ("markdown.block_quote", "magenta"), ("markdown.list", "cyan"),
    ("markdown.item.bullet", "bold"), ("markdown.item.number", "cyan"),
    ("markdown.hr", "dim"), ("markdown.h1", "bold underline"),
    ("markdown.h2", "underline magenta"), ("markdown.h3", "bold magenta"),
    ("markdown.h4", "italic magenta"), ("markdown.h5", "italic"), ("markdown.h6", "dim"),
    ("markdown.h7", "dim italic"), ("markdown.kbd", "bold bright_yellow"),
    ("markdown.link", "bright_blue"),
    ("markdown.link_url", "underline blue"), ("markdown.s", "strike"),
    ("markdown.table.border", "cyan"), ("markdown.table.header", "cyan"),
    ("iso8601.date", "blue"), ("iso8601.time", "magenta"), ("iso8601.timezone", "yellow")]

end Theme

end Paddock
