import DocTree.Markdown.Escape
import DocTree.Preview.Html

/-! A page of HTML that shows rendered Markdown. -/
namespace DocTree.Preview

/-- The styles of the page. -/
def styles : String :=
  "
body \x7b font-family: -apple-system, BlinkMacSystemFont, \"Segoe UI\", Roboto, sans-serif; line-height: 1.6; \x7d
.apidoc \x7b max-width: 48rem; margin: 0 auto; padding: 2rem 1.5rem 4rem; \x7d
.apidoc pre \x7b background: #f6f8fa; padding: 1rem; overflow-x: auto; border-radius: 6px; \x7d
.apidoc code \x7b font-family: \"SF Mono\", Menlo, Consolas, monospace; font-size: 0.875em; \x7d
.apidoc table \x7b border-collapse: collapse; \x7d
.apidoc th, .apidoc td \x7b border: 1px solid #d0d7de; padding: 0.25rem 0.75rem; \x7d
"

/-- What stands in front of the title. -/
def pageStart : String :=
  "<!DOCTYPE html>
<html lang=\"en\">
<head>
    <meta charset=\"utf-8\">
    <meta name=\"viewport\" content=\"width=device-width, initial-scale=1\">
    <meta name=\"generator\" content=\"apidoc\">
    <title>"

/-- What stands between the styles and the content. -/
def pageMiddle : String :=
  "</style>
</head>
<body>
<article class=\"apidoc\">
"

def pageEnd : String :=
  "
</article>
</body>
</html>"

/-- A whole page with a title. -/
def page (title markdown : String) : String :=
  pageStart ++ Markdown.escapeAttribute title ++ "</title>\n    <style>" ++ styles ++ pageMiddle
    ++ html markdown ++ pageEnd

end DocTree.Preview
