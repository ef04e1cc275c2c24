import RocketMQClient.Library.Machine
import RocketMQClient.Library.Fairness
import RocketMQClient.Library.Lifecycle
import RocketMQClient.Library.Handoff
import RocketMQClient.Library.Heap
import RocketMQClient.Library.CString
import RocketMQClient.Library.ObjectGraph
import RocketMQClient.Library.Utf16
import RocketMQClient.Library.Binary64
import RocketMQClient.Library.ComparatorSort
import RocketMQClient.Js.Number
import RocketMQClient.Marshal.Receive
import RocketMQClient.Client.KeepAlive
import RocketMQClient.Client.Usable
import RocketMQClient.Client.NativeTrace
import RocketMQClient.Client.Report
import RocketMQClient.Client.Ownership
import RocketMQClient.Client.Outstanding
import RocketMQClient.Client.WindDown
import RocketMQClient.Client.Collection
import RocketMQClient.Client.Options
import RocketMQClient.Client.Construct
import RocketMQClient.Consume.Synchronous
import RocketMQClient.Consume.Obligation
import RocketMQClient.Consume.Activation
import RocketMQClient.Consume.Registry
import RocketMQClient.Consume.Wakeup
import RocketMQClient.Consume.Lifetimes
import RocketMQClient.Consume.Returns
import RocketMQClient.Consume.Progress
import RocketMQClient.Consume.Rest
import RocketMQClient.Consume.Courses
import RocketMQClient.Consume.Fairness
import RocketMQClient.Consume.Order
import RocketMQClient.Consume.Deliverable
import RocketMQClient.System.Transport
import RocketMQClient.System.Drain
import RocketMQClient.System.Exit
import RocketMQClient.Script.GetLinuxDistroRoute
import RocketMQClient.Script.DownloadLib
import RocketMQClient.Script.Install
import RocketMQClient.Example.Producer
import RocketMQClient.Example.PushConsumer
import RocketMQClient.Example.NpmTest
